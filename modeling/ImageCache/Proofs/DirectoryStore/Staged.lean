import ImageCache.Proofs.DirectoryStore.Scene

namespace ImageCache

open Disk

/-- A reader of the key is given these bytes. -/
def Shown (s : DirectoryStore) (d : Disk) (key : String) (bytes : ByteArray) : Prop :=
  ∃ id d', s.read key d = (.ok (some ⟨.file id, 0⟩), d') ∧ (d'.file id).bytes = bytes

/-- What was written through a writer is staged where it was begun, and no reader is given it. -/
structure Staged (s : DirectoryStore) (d : Disk) (w : Writer) : Prop where
  there : d.find w.entry.staging = .ok (some w.entry.file.node)
  bytes : (d.file w.id).bytes = w.written
  unseen : ∀ identity tag,
    (s.read (Key.diskKey identity tag) d).1 ≠ .ok (some ⟨w.entry.file.node, 0⟩)

/-- The staged file of a writer is old enough for a flush to remove it. -/
def Overdue (s : DirectoryStore) (σ : Scene) (w : Writer) : Prop :=
  σ.disk.find w.entry.staging = .ok (some w.entry.file.node) ∧
    s.isStale σ.disk.now ⟨w.entry.staging, (σ.disk.file w.id).bytes.size,
      (σ.disk.file w.id).modified⟩ = true

theorem not_overdue_of_recent {s : DirectoryStore} {σ : Scene} {w : Writer}
    (h : (σ.disk.now - (σ.disk.file w.id).modified).toNat < span s.staleAfter) :
    ¬ Overdue s σ w := by
  rintro ⟨-, hstale⟩
  rw [DirectoryStore.isStale, decide_eq_true_iff] at hstale
  exact absurd h (Nat.not_lt.mpr hstale)

/-- No flush of the run meets a staged file of a live writer that is old enough to be removed. -/
def Undisturbed (s : DirectoryStore) : Scene → List Act → Prop
  | _, [] => True
  | σ, act :: rest =>
    (act = .flush → ∀ w ∈ σ.live, ¬ Overdue s σ w) ∧ Undisturbed s (σ.step s act) rest

theorem undisturbed_append {s : DirectoryStore} {σ : Scene} {acts more : List Act} :
    Undisturbed s σ (acts ++ more) ↔
      Undisturbed s σ acts ∧ Undisturbed s (σ.run s acts) more := by
  induction acts generalizing σ with
  | nil => exact ⟨fun h => ⟨trivial, h⟩, fun h => h.2⟩
  | cons act rest ih =>
    rw [List.cons_append, Undisturbed, Undisturbed, ih, Scene.run_cons, and_assoc]

section Reading

variable {s : DirectoryStore} {d : Disk} {entries : Entries} {key : String}

theorem shown_of_mem (h : Shelf s.root d entries) (hk : PlainKey key) {id : FileId}
    (hm : (key, id) ∈ entries) : Shown s d key (d.file id).bytes :=
  ⟨id, _, s.read_some h hk hm, (touch_alike id d).bytes id⟩

theorem Shown.unique {bytes other : ByteArray} (h : Shown s d key bytes)
    (ho : Shown s d key other) : bytes = other := by
  obtain ⟨id, d', hr, rfl⟩ := h
  obtain ⟨id', d'', hr', rfl⟩ := ho
  rw [hr] at hr'
  obtain ⟨he, rfl⟩ := Prod.mk.inj hr'
  have hid : id = id' := by simpa using he
  rw [hid]

theorem Writer.Owns.same_files {w : Writer} {d' : Disk} (ho : w.Owns s d)
    (hf : d'.files = d.files) : w.Owns s d' := by
  refine ⟨ho.handle, ?_, ?_, ho.nameable⟩
  · rw [hf]
    exact ho.stored
  · rw [file, hf]
    exact ho.bytes

/-- A file that stands under the staging name of its writer is staged in every respect. -/
theorem Writer.Owns.staged_iff {w : Writer} (ho : w.Owns s d) (h : Shelf s.root d entries) :
    Staged s d w ↔ (stagedName w.key, w.id) ∈ entries := by
  constructor
  · intro hs
    have ht := hs.there
    rw [ho.staging, ho.node] at ht
    exact h.mem_of_find ht
  · intro hm
    refine ⟨?_, ho.bytes, ?_⟩
    · rw [ho.staging, ho.node]
      exact h.find_some hm
    · intro identity tag hr
      rw [ho.node] at hr
      have hk := diskKey_plain identity tag
      exact hk.ne_stagedName w.key (h.named_once (s.read_mem h hk hr) hm)

end Reading

namespace Orderly

variable {s : DirectoryStore} {σ : Scene} {entries : Entries} {w : Writer} {i : Nat}

theorem staging_iff (h : Orderly s σ entries) (hw : w ∈ σ.live) {id : FileId} :
    σ.disk.find w.entry.staging = .ok (some (.file id)) ↔ (stagedName w.key, id) ∈ entries := by
  rw [(h.owns w hw).staging]
  exact ⟨h.shelf.mem_of_find, h.shelf.find_some⟩

/-- Finishing a writer spares all that others have staged, unless their file is the one that stands
under its staging name. -/
theorem spares (h : Orderly s σ entries) (hw : w ∈ σ.live) (how : Finish) {other : Writer}
    (ho : other ∈ σ.live) (hne : (stagedName w.key, other.id) ∉ entries)
    (hs : Staged s σ.disk other) : Staged s (how.run w.entry σ.disk) other := by
  have hwriter := h.owns w hw
  have hother := h.owns other ho
  have hm := (hother.staged_iff h.shelf).mp hs
  rw [hwriter.handle]
  by_cases hc : ∃ id, (stagedName w.key, id) ∈ entries
  · obtain ⟨id, hc⟩ := hc
    obtain ⟨hf, hs'⟩ := how.run_some h.shelf w.key_plain hc w.id w.written.size
    have hname : stagedName other.key ≠ stagedName w.key := by
      intro he
      rw [he] at hm
      exact hne hm
    have hkept := how.mem_entries_of_ne hm hname (w.key_plain.ne_stagedName other.key).symm
    exact ((hother.same_files hf).staged_iff hs').mpr hkept
  · rw [how.run_none h.shelf hwriter.nameable (fun id hm => hc ⟨id, hm⟩)]
    exact hs

/-- A commit shows what stands under the staging name, whosever it is. -/
theorem shows (h : Orderly s σ entries) (hw : w ∈ σ.live) {id : FileId}
    (hm : (stagedName w.key, id) ∈ entries) :
    (w.entry.commit σ.disk).1.1 = .ok () ∧
      Shown s (w.entry.commit σ.disk).2 w.key (σ.disk.file id).bytes := by
  rw [(h.owns w hw).handle]
  obtain ⟨d', hc, hf, -, hs⟩ := s.commit_some h.shelf w.key_plain hm w.id w.written.size
  have hkey : (w.key, id) ∈ entries.renamed (stagedName w.key) w.key :=
    Entries.mem_renamed.mpr (.inl ⟨rfl, hm, (w.key_plain.ne_stagedName w.key).symm⟩)
  have hshown := shown_of_mem hs w.key_plain hkey
  rw [file, hf] at hshown
  rw [hc]
  exact ⟨rfl, hshown⟩

/-- What is staged for a writer stays so as long as it owns the file and the name is not lost. -/
theorem keeps {σ' : Scene} {entries' : Entries} {w' : Writer} (h : Orderly s σ entries)
    (h' : Orderly s σ' entries') (hw : w ∈ σ.live) (hw' : w' ∈ σ'.live) (hkey : w'.key = w.key)
    (hid : w'.id = w.id)
    (hm : (stagedName w.key, w.id) ∈ entries → (stagedName w.key, w.id) ∈ entries')
    (hs : Staged s σ.disk w) : Staged s σ'.disk w' := by
  rw [(h'.owns w' hw').staged_iff h'.shelf, hkey, hid]
  exact hm (((h.owns w hw).staged_iff h.shelf).mp hs)

theorem overdue_iff (h : Orderly s σ entries) (hw : w ∈ σ.live) :
    Overdue s σ w ↔ (stagedName w.key, w.id) ∈ entries ∧
      s.isStale σ.disk.now (DirectoryStore.info s.root σ.disk (stagedName w.key, w.id)) = true := by
  rw [Overdue, (h.owns w hw).node, h.staging_iff hw, (h.owns w hw).staging]
  rfl

/-- A flush leaves what is staged for a writer, unless it is overdue. -/
theorem staged_flush (h : Orderly s σ entries) (hw : w ∈ σ.live) (hs : Staged s σ.disk w)
    (ho : ¬ Overdue s σ w) : Staged s (σ.step s .flush).disk w := by
  obtain ⟨d, gone, hstep, -, h', hiff⟩ := h.flush
  rw [hstep]
  refine h.keeps h' hw hw rfl rfl (fun hm => List.mem_filter.mpr ⟨hm, ?_⟩) hs
  have hkept : stagedName w.key ∉ gone := by
    rw [hiff _ hm (isStaged_stagedName s.root w.key)]
    exact fun hstale => ho ((h.overdue_iff hw).mpr ⟨hm, hstale⟩)
  simpa using hkept

/-- What is staged for live writers stays so whatever is done next, unless a flush finds it overdue.
-/
theorem staged_step (h : Orderly s σ entries) (hs : ∀ w ∈ σ.live, Staged s σ.disk w) (act : Act)
    (calm : act = .flush → ∀ w ∈ σ.live, ¬ Overdue s σ w) :
    ∀ w ∈ (σ.step s act).live, Staged s (σ.step s act).disk w := by
  cases act with
  | stage identity tag =>
    rcases h.stage_cases identity tag with hsame | ⟨d, hstep, -, h'⟩
    · rw [hsame]
      exact hs
    · rw [hstep]
      intro w hw
      rcases List.mem_append.mp hw with hold | hnew
      · exact h.keeps h' hold hw rfl rfl (List.mem_append_left _) (hs w hold)
      · refine ((h'.owns w hw).staged_iff h'.shelf).mpr (List.mem_append_right _ ?_)
        rw [List.mem_singleton.mp hnew]
        exact List.mem_singleton_self _
  | write i bytes =>
    cases hw : σ.live[i]? with
    | none =>
      rw [Scene.step, hw]
      exact hs
    | some w =>
      obtain ⟨d, hstep, -, h'⟩ := h.write hw bytes
      rw [hstep]
      intro w' hw'
      rcases List.mem_or_eq_of_mem_set hw' with hold | rfl
      · exact h.keeps h' hold hw' rfl rfl id (hs w' hold)
      · have hlive := List.mem_of_getElem? hw
        exact h.keeps h' hlive hw' rfl rfl id (hs w hlive)
  | finish how i =>
    rw [Scene.step]
    cases hw : σ.live[i]? with
    | none => exact hs
    | some w =>
      intro other hother
      have hlive := List.mem_of_getElem? hw
      obtain ⟨j, hj, hat⟩ := List.mem_eraseIdx_iff_getElem?.mp hother
      have hold := List.mem_of_getElem? hat
      have hm := ((h.owns w hlive).staged_iff h.shelf).mp (hs w hlive)
      -- The name still stands for the writer's own file, so nobody else's is hit.
      refine h.spares hlive how hold (fun hc => ?_) (hs other hold)
      exact h.other_id hw hat hj (h.shelf.unique hc hm)
  | forget i => exact fun w hw => hs w (List.mem_of_mem_eraseIdx hw)
  | read identity tag =>
    have h' := h.alike (s.read_alike (Key.diskKey identity tag) σ.disk)
    rw [Scene.step]
    exact fun w hw => h.keeps h' hw hw rfl rfl id (hs w hw)
  | flush =>
    obtain ⟨d, gone, hstep, -⟩ := h.flush
    intro w hw
    rw [hstep] at hw
    exact h.staged_flush hw (hs w hw) (calm rfl w hw)
  | wait nanoseconds =>
    have h' := h.alike (d := σ.disk.wait nanoseconds) ⟨rfl, rfl, fun _ => rfl⟩
    exact fun w hw => h.keeps h' hw hw rfl rfl id (hs w hw)

end Orderly

/-- Along an undisturbed run everything that is written stays staged for its writer. -/
theorem undisturbed_staged {s : DirectoryStore} {σ : Scene} {entries : Entries}
    (h : Orderly s σ entries) (hs : ∀ w ∈ σ.live, Staged s σ.disk w) {acts : List Act}
    (hu : Undisturbed s σ acts) : ∀ w ∈ (σ.run s acts).live, Staged s (σ.run s acts).disk w := by
  induction acts generalizing σ entries with
  | nil => exact hs
  | cons act rest ih =>
    obtain ⟨entries', h'⟩ := h.step act
    exact ih h' (h.staged_step hs act hu.1) hu.2

end ImageCache
