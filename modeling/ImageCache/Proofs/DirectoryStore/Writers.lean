import ImageCache.Proofs.DirectoryStore.Staged

namespace ImageCache

open Disk

/-- If the writer at this place can be committed, readers are given just what was written through
it; and whichever way it is finished, what other live writers have staged stays as it is. -/
structure Faithful (s : DirectoryStore) (σ : Scene) (i : Nat) (w : Writer) : Prop where
  shows : (w.entry.commit σ.disk).1.1 = .ok () →
    Shown s (w.entry.commit σ.disk).2 w.key w.written
  spares : ∀ how : Finish, ∀ other ∈ σ.live.eraseIdx i, Staged s σ.disk other →
    Staged s (how.run w.entry σ.disk) other

/-- Where the writer at this place staged there is another file now: that of another live writer, or
at least one with other bytes. -/
def Usurped (σ : Scene) (i : Nat) (w : Writer) : Prop :=
  ∃ id, σ.disk.find w.entry.staging = .ok (some (.file id)) ∧ id ≠ w.id ∧
    ((∃ other ∈ σ.live.eraseIdx i, other.id = id) ∨ (σ.disk.file id).bytes ≠ w.written)

namespace Orderly

variable {s : DirectoryStore} {σ : Scene} {entries : Entries} {w : Writer} {i : Nat}

theorem faithful (h : Orderly s σ entries) (hw : σ.live[i]? = some w) (hn : ¬ Usurped σ i w) :
    Faithful s σ i w := by
  have hlive := List.mem_of_getElem? hw
  have ho := h.owns w hlive
  refine ⟨fun hc => ?_, fun how other hother => ?_⟩
  · by_cases hm : ∃ id, (stagedName w.key, id) ∈ entries
    · obtain ⟨id, hm⟩ := hm
      have hbytes : (σ.disk.file id).bytes = w.written := by
        by_contra hb
        have hid : id ≠ w.id := by
          rintro rfl
          exact hb ho.bytes
        exact hn ⟨id, (h.staging_iff hlive).mpr hm, hid, .inr hb⟩
      rw [← hbytes]
      exact (h.shows hlive hm).2
    · rw [ho.handle, s.commit_none h.shelf ho.nameable fun id hc => hm ⟨id, hc⟩] at hc
      cases hc
  · obtain ⟨j, hj, hat⟩ := List.mem_eraseIdx_iff_getElem?.mp hother
    refine h.spares hlive how (List.mem_of_getElem? hat) fun hm => ?_
    exact hn ⟨other.id, (h.staging_iff hlive).mpr hm, h.other_id hw hat hj,
      .inl ⟨other, hother, rfl⟩⟩

/-- A file that another live writer has under the staging name of this one is staged for both. -/
theorem staged_of_usurped (h : Orderly s σ entries) {other : Writer} (ho : other ∈ σ.live)
    (hm : (stagedName w.key, other.id) ∈ entries) :
    other.key = w.key ∧ Staged s σ.disk other := by
  have hkey : other.key = w.key := by
    rcases h.filed other ho _ hm with he | hp
    · exact (stagedName_inj he).symm
    · exact absurd rfl (hp.ne_stagedName w.key)
  exact ⟨hkey, ((h.owns other ho).staged_iff h.shelf).mpr (by rwa [hkey])⟩

theorem unfaithful (h : Orderly s σ entries) (hw : σ.live[i]? = some w) (hu : Usurped σ i w) :
    ¬ Faithful s σ i w := by
  intro hf
  have hlive := List.mem_of_getElem? hw
  have ho := h.owns w hlive
  obtain ⟨id, hfind, -, hwhy⟩ := hu
  have hm := (h.staging_iff hlive).mp hfind
  rcases hwhy with ⟨other, hother, rfl⟩ | hb
  -- An abort is enough to remove what the other has staged under the same name.
  · have hother' := List.mem_of_mem_eraseIdx hother
    obtain ⟨hkey, hs⟩ := h.staged_of_usurped hother' hm
    obtain ⟨hfiles, hshelf⟩ := Finish.abort.run_some h.shelf w.key_plain hm w.id w.written.size
    have hspared := hf.spares .abort other hother hs
    rw [ho.handle] at hspared
    have hleft := (((h.owns other hother').same_files hfiles).staged_iff hshelf).mp hspared
    rw [hkey] at hleft
    exact Shelf.without_free _ _ hleft
  · obtain ⟨hc, hshown⟩ := h.shows hlive hm
    exact hb (hshown.unique (hf.shows hc))

theorem not_usurped (h : Orderly s σ entries) (hw : σ.live[i]? = some w)
    (hs : Staged s σ.disk w) : ¬ Usurped σ i w := by
  rintro ⟨id, hfind, hne, -⟩
  have hlive := List.mem_of_getElem? hw
  have hm := (h.staging_iff hlive).mp hfind
  exact hne (h.shelf.unique hm (((h.owns w hlive).staged_iff h.shelf).mp hs))

/-- When a flush meets an overdue writer and somebody else asks for its key next, then the other
gets a writer, and its file stands under the staging name of both. -/
theorem overdue_taken (h : Orderly s σ entries) (hw : σ.live[i]? = some w) (ho : Overdue s σ w) :
    ∃ d entries', σ.run s [.flush, .stage w.identity w.tag] =
        ⟨d, σ.live ++ [.opened s w.identity w.tag σ.disk.files.size]⟩ ∧
      Orderly s ⟨d, σ.live ++ [.opened s w.identity w.tag σ.disk.files.size]⟩ entries' ∧
      (stagedName w.key, σ.disk.files.size) ∈ entries' := by
  have hlive := List.mem_of_getElem? hw
  obtain ⟨hm, hstale⟩ := (h.overdue_iff hlive).mp ho
  obtain ⟨d, gone, hflush, hf, h', hiff⟩ := h.flush
  have hgone := (hiff _ hm (isStaged_stagedName s.root w.key)).mpr hstale
  have hfree : ∀ id, (stagedName w.key, id) ∉ entries.filter fun entry => entry.1 ∉ gone := by
    intro id hc
    have hkept := (List.mem_filter.mp hc).2
    simp [hgone] at hkept
  obtain ⟨d', hstage, -, -, h''⟩ :=
    h'.stage_free w.identity w.tag (h.owns w hlive).nameable hfree
  have hsize : d.files.size = σ.disk.files.size := by rw [hf]
  rw [hsize] at hstage h''
  refine ⟨d', _, ?_, h'', List.mem_append_right _ (List.mem_singleton_self _)⟩
  rw [Scene.run_cons, hflush, Scene.run_cons, hstage]
  rfl

theorem overdue_usurped (h : Orderly s σ entries) (hw : σ.live[i]? = some w)
    (ho : Overdue s σ w) :
    (σ.run s [.flush, .stage w.identity w.tag]).live[i]? = some w ∧
      ¬ Faithful s (σ.run s [.flush, .stage w.identity w.tag]) i w := by
  have hlt : i < σ.live.length := (List.getElem?_eq_some_iff.mp hw).1
  have hstored := (h.owns w (List.mem_of_getElem? hw)).stored
  obtain ⟨d, entries', hrun, h', hm⟩ := h.overdue_taken hw ho
  have hw' : (σ.live ++ [.opened s w.identity w.tag σ.disk.files.size])[i]? = some w := by
    rw [List.getElem?_append_left hlt, hw]
  rw [hrun]
  refine ⟨hw', h'.unfaithful hw' ⟨σ.disk.files.size, ?_, (Nat.ne_of_lt hstored).symm, .inl ?_⟩⟩
  · exact (h'.staging_iff (List.mem_of_getElem? hw')).mpr hm
  · refine ⟨_, List.mem_eraseIdx_iff_getElem?.mpr ⟨σ.live.length, (Nat.ne_of_lt hlt).symm,
      List.getElem?_concat_length⟩, rfl⟩

end Orderly

section Slow

variable (s : DirectoryStore) {d : Disk} (identity tag : String)

/-- The first writer of a store is overdue when nothing was done with it for long enough. -/
theorem opened_overdue (hd : EmptyRoot s.root d)
    (hn : Nameable s.root (stagedName (Key.diskKey identity tag))) :
    ∃ d', Scene.run s ⟨d, []⟩ [.stage identity tag, .wait (span s.staleAfter)] =
        ⟨d', [.opened s identity tag d.files.size]⟩ ∧
      d'.files.size = d.files.size + 1 ∧
      Orderly s ⟨d', [.opened s identity tag d.files.size]⟩
        [(stagedName (Key.diskKey identity tag), d.files.size)] ∧
      Overdue s ⟨d', [.opened s identity tag d.files.size]⟩
        (.opened s identity tag d.files.size) := by
  obtain ⟨d₁, hstage, hf, ht, h₁⟩ := (orderly_start hd).stage_free identity tag hn (by simp)
  have h : Orderly s ⟨d₁.wait (span s.staleAfter),
      [.opened s identity tag d.files.size]⟩
      [(stagedName (Key.diskKey identity tag), d.files.size)] :=
    h₁.alike (d := d₁.wait (span s.staleAfter)) ⟨rfl, rfl, fun _ => rfl⟩
  refine ⟨_, ?_, ?_, h, ?_⟩
  · rw [Scene.run_cons, hstage]
    rfl
  · rw [Disk.wait, hf, Array.size_push]
  · refine (h.overdue_iff List.mem_cons_self).mpr ⟨List.mem_cons_self, ?_⟩
    have hmodified : (d₁.file d.files.size).modified = d₁.now := by
      rw [file_push hf, if_pos rfl, ht]
    have hage : d₁.now + ↑(span s.staleAfter) - (d₁.file d.files.size).modified =
        ↑(span s.staleAfter) := by
      rw [hmodified]
      omega
    rw [DirectoryStore.isStale, decide_eq_true_iff]
    exact Nat.le_of_eq (congrArg Int.toNat hage).symm

/-- A writer at which nothing was done for so long that a flush takes its file for abandoned can be
committed when another has been at its key; readers are then given what the other has written so
far. -/
theorem slow_commit_shows_other (hd : EmptyRoot s.root d)
    (hn : Nameable s.root (stagedName (Key.diskKey identity tag))) (bytes : ByteArray) :
    ∃ d', Scene.run s ⟨d, []⟩ ([.stage identity tag, .wait (span s.staleAfter)] ++
        ([.flush, .stage identity tag] ++ [.write 1 bytes])) =
        ⟨d', [.opened s identity tag d.files.size,
          (Writer.opened s identity tag (d.files.size + 1)).wrote s bytes]⟩ ∧
      ((Writer.opened s identity tag d.files.size).entry.commit d').1.1 = .ok () ∧
      Shown s ((Writer.opened s identity tag d.files.size).entry.commit d').2
        (Key.diskKey identity tag) bytes := by
  obtain ⟨d₁, hbegun, hsize, h₁, hover⟩ := opened_overdue s identity tag hd hn
  obtain ⟨d₂, entries, htaken, h₂, hm⟩ := h₁.overdue_taken (i := 0) rfl hover
  dsimp only at htaken h₂ hm
  rw [hsize] at htaken h₂ hm
  obtain ⟨d₃, hwrite, -, h₃⟩ := h₂.write (i := 1) rfl bytes
  obtain ⟨hc, hshown⟩ := h₃.shows List.mem_cons_self hm
  have hother := (h₃.owns _ (List.mem_cons_of_mem _ List.mem_cons_self)).bytes
  have hbytes : (d₃.file (d.files.size + 1)).bytes = bytes := hother.trans ByteArray.empty_append
  rw [hbytes] at hshown
  refine ⟨d₃, ?_, hc, hshown⟩
  rw [Scene.run_append, hbegun, Scene.run_append]
  refine (congrArg (Scene.run s · [.write 1 bytes]) htaken).trans ?_
  rw [Scene.run_cons, hwrite]
  rfl

end Slow

def patient : DirectoryStore := ⟨[], 1048576, 600⟩

theorem patient_empty : EmptyRoot patient.root .blank :=
  ⟨rfl, fun _ hm => absurd hm List.not_mem_nil⟩

theorem patient_nameable (identity tag : String) :
    Nameable patient.root (stagedName (Key.diskKey identity tag)) := by
  have hk := diskKey_plain identity tag
  refine hk.stagedName_nameable ?_
  rw [patient, List.nil_append]
  simp only [pathSize, List.foldr_cons, List.foldr_nil, hk.stagedName_size]
  decide

/-- A writer with nothing written through it makes public what another is in the middle of writing.
-/
theorem slow_writer_publishes_other :
    ∃ w d, Scene.run patient ⟨.blank, []⟩ [.stage "url" "full", .wait 600000000000, .flush,
        .stage "url" "full", .write 1 ⟨#[116, 119, 111]⟩] = d ∧
      d.live[0]? = some w ∧ w.written = .empty ∧ (w.entry.commit d.disk).1.1 = .ok () ∧
      Shown patient (w.entry.commit d.disk).2 w.key ⟨#[116, 119, 111]⟩ ∧
      ¬ Faithful patient d 0 w := by
  obtain ⟨d, hrun, hc, hshown⟩ := slow_commit_shows_other patient "url" "full" patient_empty
    (patient_nameable "url" "full") ⟨#[116, 119, 111]⟩
  refine ⟨_, _, hrun, rfl, rfl, hc, hshown, fun hf => ?_⟩
  have hbytes := hshown.unique (hf.shows hc)
  exact absurd hbytes (by decide)

/-- In every run that begins on an empty root, a writer is faithful as long as its staging name has
not gone to another file. That never happens while no flush meets an overdue writer; as soon as one
does, the next who asks for the key can bring it about. -/
theorem faithful_iff_not_usurped (s : DirectoryStore) {d : Disk} (hd : EmptyRoot s.root d)
    (acts : List Act) {i : Nat} {w : Writer}
    (hw : (Scene.run s ⟨d, []⟩ acts).live[i]? = some w) :
    (Faithful s (Scene.run s ⟨d, []⟩ acts) i w ↔ ¬ Usurped (Scene.run s ⟨d, []⟩ acts) i w) ∧
      (Undisturbed s ⟨d, []⟩ acts → Faithful s (Scene.run s ⟨d, []⟩ acts) i w) ∧
      (Overdue s (Scene.run s ⟨d, []⟩ acts) w →
        (Scene.run s ⟨d, []⟩ (acts ++ [.flush, .stage w.identity w.tag])).live[i]? = some w ∧
          ¬ Faithful s (Scene.run s ⟨d, []⟩ (acts ++ [.flush, .stage w.identity w.tag])) i w) := by
  obtain ⟨entries, h⟩ := run_orderly (orderly_start hd) acts
  refine ⟨⟨fun hf hu => h.unfaithful hw hu hf, h.faithful hw⟩, fun hu => ?_, fun ho => ?_⟩
  · have hs := undisturbed_staged (orderly_start hd) (by simp) hu
    exact h.faithful hw (h.not_usurped hw (hs w (List.mem_of_getElem? hw)))
  · rw [Scene.run_append]
    exact h.overdue_usurped hw ho

/-- A writer is faithful for as long as it waits, and no longer once it was flushed away. -/
theorem slow_writer_faithful_until_flush :
    ∃ w, EmptyRoot patient.root .blank ∧
      (Scene.run patient ⟨.blank, []⟩ [.stage "url" "full", .wait 600000000000]).live[0]? = some w ∧
      Faithful patient (Scene.run patient ⟨.blank, []⟩
        [.stage "url" "full", .wait 600000000000]) 0 w ∧
      ¬ Faithful patient (Scene.run patient ⟨.blank, []⟩
        [.stage "url" "full", .wait 600000000000, .flush, .stage "url" "full"]) 0 w := by
  obtain ⟨d, hrun, -, -, hover⟩ := opened_overdue patient "url" "full" patient_empty
    (patient_nameable "url" "full")
  have hlive : (Scene.run patient ⟨.blank, []⟩ [.stage "url" "full",
      .wait 600000000000]).live[0]? = some (.opened patient "url" "full" 0) :=
    congrArg (fun σ : Scene => σ.live[0]?) hrun
  obtain ⟨-, hundisturbed, hoverdue⟩ := faithful_iff_not_usurped patient patient_empty _ hlive
  refine ⟨_, patient_empty, hlive, hundisturbed ⟨nofun, nofun, trivial⟩, ?_⟩
  exact (hoverdue (hrun ▸ hover)).2

end ImageCache
