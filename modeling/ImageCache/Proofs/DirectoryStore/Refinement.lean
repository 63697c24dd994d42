import ImageCache.Proofs.DirectoryStore.Recorded
import ImageCache.Proofs.DirectoryStore.Writers
import ImageCache.Proofs.Reading.OpenFile

namespace ImageCache

open Disk

/-- A scene at which everything that live writers have written is staged, with its ledger. -/
structure Settled (s : DirectoryStore) (σ : Scene) (entries : Entries) (a : Ledger) : Prop where
  orderly : Orderly s σ entries
  staged : ∀ w ∈ σ.live, Staged s σ.disk w
  recorded : Recorded σ.disk entries a

/-- A writer whose file is staged can be finished in every way. -/
theorem Finish.reply_some {s : DirectoryStore} {d : Disk} {entries : Entries} {key : String}
    {id : FileId} (how : Finish) (h : Shelf s.root d entries) (hk : PlainKey key)
    (hm : (stagedName key, id) ∈ entries) (own : FileId) (n : Nat) :
    how.reply (s.handle key own n) d = .ok () := by
  cases how with
  | commit =>
    obtain ⟨d', hc, -⟩ := s.commit_some h hk hm own n
    rw [reply, hc]
  | abort => exact s.abort_some h hm own n
  | drop => rfl

/-- Whoever reads an entry to its end finds the bytes of the file that has the name of its key. -/
theorem Orderly.observe_read {s : DirectoryStore} {σ : Scene} {entries : Entries}
    (h : Orderly s σ entries) {identity tag : String} {id : FileId}
    (hm : (Key.diskKey identity tag, id) ∈ entries) :
    σ.observe s (.read identity tag) =
      .found (Key.diskKey identity tag) (σ.disk.file id).bytes := by
  rw [Scene.observe, s.read_some h.shelf (diskKey_plain identity tag) hm]
  dsimp only
  rw [OpenFile.read_whole, (touch_alike id σ.disk).bytes]

namespace Settled

variable {s : DirectoryStore} {σ : Scene} {entries : Entries} {a : Ledger}

theorem member (h : Settled s σ entries a) {w : Writer} (hw : w ∈ σ.live) :
    (stagedName w.key, w.id) ∈ entries :=
  ((h.orderly.owns w hw).staged_iff h.orderly.shelf).mp (h.staged w hw)

theorem holds (h : Settled s σ entries a) {w : Writer} (hw : w ∈ σ.live) : w.key ∈ a.held :=
  (h.recorded.held w.key).mpr ⟨w.key_plain, w.id, h.member hw⟩

/-- The next act is a step of the ledger, after which there is a ledger again. -/
def Advances (s : DirectoryStore) (σ : Scene) (a : Ledger) (act : Act) : Prop :=
  ∃ b entries, a.Step (σ.observe s act) b ∧ Orderly s (σ.step s act) entries ∧
    Recorded (σ.step s act).disk entries b

theorem stage (h : Settled s σ entries a) (room : s.Roomy) (identity tag : String) :
    Advances s σ a (.stage identity tag) := by
  have hk := diskKey_plain identity tag
  by_cases hm : ∃ id, (stagedName (Key.diskKey identity tag), id) ∈ entries
  · have hheld := (h.recorded.held _).mpr ⟨hk, hm⟩
    obtain ⟨id, hm⟩ := hm
    have hst := s.stage_taken h.orderly.shelf hk hm
    refine ⟨a, entries, ?_, ?_⟩
    · rw [Scene.observe, hst]
      exact .refused hheld
    · rw [Scene.step, hst]
      exact ⟨h.orderly, h.recorded⟩
  · have hfree : ∀ id, (stagedName (Key.diskKey identity tag), id) ∉ entries :=
      fun id hc => hm ⟨id, hc⟩
    obtain ⟨d', hst, -⟩ := s.stage_free h.orderly.shelf hk (room.staging hk) hfree
    obtain ⟨d, hstep, hf, -, ho⟩ := h.orderly.stage_free identity tag (room.staging hk) hfree
    refine ⟨{ a with held := insert (Key.diskKey identity tag) a.held }, _, ?_, hstep ▸ ho, ?_⟩
    · rw [Scene.observe, hst]
      exact .opened ((h.recorded.free hk).mpr hfree)
    · rw [hstep]
      exact (h.recorded.pushed h.orderly.shelf hf).hold hk _

theorem write (h : Settled s σ entries a) (i : Nat) (bytes : ByteArray) :
    Advances s σ a (.write i bytes) := by
  cases hw : σ.live[i]? with
  | none =>
    refine ⟨a, entries, ?_, ?_⟩
    · rw [Scene.observe, hw]
      exact .nobody
    · rw [Scene.step, hw]
      exact ⟨h.orderly, h.recorded⟩
  | some w =>
    have hlive := List.mem_of_getElem? hw
    have owns := h.orderly.owns w hlive
    obtain ⟨d', hreply, -⟩ :=
      s.write_end w.key owns.stored (congrArg ByteArray.size owns.bytes) bytes
    obtain ⟨d, hstep, grows, ho⟩ := h.orderly.write hw bytes
    refine ⟨a, entries, ?_, hstep ▸ ho, ?_⟩
    · rw [Scene.observe, hw]
      dsimp only
      rw [owns.handle, hreply]
      exact .wrote (Nat.le_refl _) id (h.holds hlive)
    · rw [hstep]
      exact h.recorded.grows h.orderly.shelf (h.member hlive) grows

theorem finish (h : Settled s σ entries a) (how : Finish) (i : Nat) :
    Advances s σ a (.finish how i) := by
  cases hw : σ.live[i]? with
  | none =>
    refine ⟨a, entries, ?_, ?_⟩
    · rw [Scene.observe, hw]
      exact .nobody
    · rw [Scene.step, hw]
      exact ⟨h.orderly, h.recorded⟩
  | some w =>
    have hlive := List.mem_of_getElem? hw
    have hm := h.member hlive
    have owns := h.orderly.owns w hlive
    obtain ⟨hf, ho⟩ := h.orderly.finish_staged how hw hm
    have hreply := how.reply_some h.orderly.shelf w.key_plain hm w.id w.written.size
    rw [← owns.handle] at hreply
    refine ⟨⟨a.after w.key w.written how, a.held.erase w.key⟩, how.entries w.key entries, ?_, ?_⟩
    · rw [Scene.observe, hw]
      dsimp only
      rw [hreply]
      exact .finished how w.written (h.holds hlive)
    · rw [Scene.step, hw]
      refine ⟨ho, Recorded.same_files ?_ hf⟩
      cases how with
      | commit =>
        have hp := h.recorded.publish h.orderly.shelf w.key_plain hm
        rwa [owns.bytes] at hp
      | abort => exact h.recorded.release w.key
      | drop => exact h.recorded.release w.key

theorem forget (h : Settled s σ entries a) (i : Nat) : Advances s σ a (.forget i) := by
  refine ⟨a, entries, ?_, ?_, h.recorded⟩
  · rw [Scene.observe]
    cases hw : σ.live[i]? with
    | none => exact .nobody
    | some w => exact .forgotten (h.holds (List.mem_of_getElem? hw))
  · exact h.orderly.change (List.eraseIdx_sublist σ.live i) h.orderly.shelf (Nat.le_refl _)
      (fun _ => rfl) fun _ _ hm => .inl hm

theorem read (h : Settled s σ entries a) (room : s.Roomy) (identity tag : String) :
    Advances s σ a (.read identity tag) := by
  have hk := diskKey_plain identity tag
  have alike := s.read_alike (Key.diskKey identity tag) σ.disk
  refine ⟨a, entries, ?_, ?_⟩
  · by_cases hm : ∃ id, (Key.diskKey identity tag, id) ∈ entries
    · obtain ⟨id, hm⟩ := hm
      rw [h.orderly.observe_read hm]
      exact .found ((h.recorded.content _ _).mpr ⟨hk, id, hm, rfl⟩)
    · have hfree : ∀ id, (Key.diskKey identity tag, id) ∉ entries := fun id hc => hm ⟨id, hc⟩
      rw [Scene.observe, s.read_none h.orderly.shelf hk (hk.nameable (room.staging hk)) hfree]
      exact .missing ((h.recorded.absent hk).mpr hfree)
  · rw [Scene.step]
    -- Nothing about the key matters here, least of all how it is computed.
    generalize Key.diskKey identity tag = key at alike ⊢
    exact ⟨h.orderly.alike alike, h.recorded.alike alike⟩

theorem flush (h : Settled s σ entries a) : Advances s σ a .flush := by
  obtain ⟨n, d', gone', hp, -⟩ := s.prune_shelf h.orderly.shelf
  obtain ⟨d, gone, hstep, hf, ho, hiff⟩ := h.orderly.flush
  refine ⟨⟨gone.foldr Finmap.erase a.content, a.held.filter (stagedName · ∉ gone)⟩, _, ?_,
    hstep ▸ ho, ?_⟩
  · rw [Scene.observe, hp]
    refine .flushed (fun key bytes hb => ?_) fun key => ?_
    · dsimp only at hb
      rw [lookup_foldr_erase] at hb
      split at hb
      · cases hb
      · exact hb
    · -- What is swept off the shelf is, among the staged files, just what is stale.
      rw [Finset.mem_filter]
      refine and_congr_right fun hheld => not_congr ?_
      obtain ⟨-, id, hm⟩ := (h.recorded.held key).mp hheld
      rw [hiff _ hm (isStaged_stagedName s.root key)]
      constructor
      · exact fun hstale => ⟨id, h.orderly.shelf.find_some hm, hstale⟩
      · rintro ⟨id', hfind, hstale⟩
        rwa [h.orderly.shelf.unique hm (h.orderly.shelf.mem_of_find hfind)]
  · rw [hstep]
    exact (h.recorded.prune gone).same_files hf

theorem wait (h : Settled s σ entries a) (nanoseconds : Nat) :
    Advances s σ a (.wait nanoseconds) :=
  ⟨a, entries, .waited, h.orderly.alike ⟨rfl, rfl, fun _ => rfl⟩, h.recorded.same_files rfl⟩

theorem step (h : Settled s σ entries a) (room : s.Roomy) (act : Act)
    (calm : act = .flush → ∀ w ∈ σ.live, ¬ Overdue s σ w) :
    ∃ b entries', a.Step (σ.observe s act) b ∧ Settled s (σ.step s act) entries' b := by
  have advances : Advances s σ a act := by
    cases act with
    | stage identity tag => exact h.stage room identity tag
    | write i bytes => exact h.write i bytes
    | finish how i => exact h.finish how i
    | forget i => exact h.forget i
    | read identity tag => exact h.read room identity tag
    | flush => exact h.flush
    | wait nanoseconds => exact h.wait nanoseconds
  obtain ⟨b, entries', hstep, ho, hr⟩ := advances
  exact ⟨b, entries', hstep, ho, h.orderly.staged_step h.staged act calm, hr⟩

theorem follows (h : Settled s σ entries a) (room : s.Roomy) {acts : List Act}
    (calm : Undisturbed s σ acts) : Follows s a σ acts := by
  -- What carries the induction is that no live writer has lost its staged file so far.
  induction acts generalizing σ entries a with
  | nil => exact .done (h.recorded.size_eq h.orderly.shelf)
  | cons act rest ih =>
    obtain ⟨b, entries', hstep, h'⟩ := h.step room act calm.1
    exact .step (h.recorded.size_eq h.orderly.shelf) hstep (ih h' calm.2)

theorem run (h : Settled s σ entries a) (room : s.Roomy) {acts : List Act}
    (calm : Undisturbed s σ acts) : ∃ entries' b, Settled s (σ.run s acts) entries' b := by
  induction acts generalizing σ entries a with
  | nil => exact ⟨entries, a, h⟩
  | cons act rest ih =>
    obtain ⟨b, entries', -, h'⟩ := h.step room act calm.1
    exact ih h' calm.2

/-- What a writer commits is what is found next under its key, all of it. -/
theorem commit_found (h : Settled s σ entries a) {i : Nat} {w : Writer}
    (hw : σ.live[i]? = some w) :
    (σ.step s (.finish .commit i)).observe s (.read w.identity w.tag) =
      .found w.key w.written := by
  have hlive := List.mem_of_getElem? hw
  have hm := h.member hlive
  obtain ⟨hf, ho⟩ := h.orderly.finish_staged .commit hw hm
  have hstep : σ.step s (.finish .commit i) =
      ⟨Finish.commit.run w.entry σ.disk, σ.live.eraseIdx i⟩ := by
    rw [Scene.step, hw]
  have hkey : (w.key, w.id) ∈ Finish.commit.entries w.key entries :=
    Entries.mem_renamed.mpr (.inl ⟨rfl, hm, (w.key_plain.ne_stagedName w.key).symm⟩)
  rw [hstep, ho.observe_read hkey, file, hf, ← (h.orderly.owns w hlive).bytes]
  rfl

end Settled

theorem settled_start {s : DirectoryStore} {d : Disk} (h : EmptyRoot s.root d) :
    Settled s ⟨d, []⟩ [] .empty where
  orderly := orderly_start h
  staged := by simp
  recorded := .bare d

/-- Every run of a store from an empty root is one of the ledger from the empty one, as long as no
flush meets a live writer's staged file that is old enough to be removed. -/
theorem store_follows_ledger (s : DirectoryStore) {d : Disk} (hd : EmptyRoot s.root d)
    (room : s.Roomy) {acts : List Act} (calm : Undisturbed s ⟨d, []⟩ acts) :
    Follows s .empty ⟨d, []⟩ acts :=
  (settled_start hd).follows room calm

theorem patient_roomy : patient.Roomy := by
  rw [DirectoryStore.Roomy]
  decide

section Interleaved

variable (s : DirectoryStore) {d : Disk} (identity : String) {tag other : String}
  (one two : ByteArray)

/-- A flush comes upon two writers that were just opened, through both of which bytes are written
afterwards. -/
def interleaved (identity tag other : String) (one two : ByteArray) : List Act :=
  [.stage identity tag, .stage identity other] ++ [.flush, .write 1 one, .write 0 two]

theorem interleaved_opened (hd : EmptyRoot s.root d) (room : s.Roomy)
    (hkeys : Key.diskKey identity tag ≠ Key.diskKey identity other) :
    ∃ d' entries, Scene.run s ⟨d, []⟩ [.stage identity tag, .stage identity other] =
        ⟨d', [.opened s identity tag d.files.size, .opened s identity other (d.files.size + 1)]⟩ ∧
      Orderly s ⟨d', [.opened s identity tag d.files.size,
        .opened s identity other (d.files.size + 1)]⟩ entries ∧
      ∀ w ∈ [Writer.opened s identity tag d.files.size,
          .opened s identity other (d.files.size + 1)],
        (d'.now - (d'.file w.id).modified).toNat ≤ 1 := by
  obtain ⟨d₁, hfirst, hf₁, ht₁, h₁⟩ := (orderly_start hd).stage_free identity tag
    (room.staging (diskKey_plain identity tag)) (by simp)
  obtain ⟨d₂, hsecond, hf₂, ht₂, h₂⟩ := h₁.stage_free identity other
    (room.staging (diskKey_plain identity other)) fun id hm =>
      hkeys (stagedName_inj (Prod.mk.inj (List.mem_singleton.mp hm)).1).symm
  have hsize : d₁.files.size = d.files.size + 1 := by
    rw [hf₁, Array.size_push]
  dsimp only at hsecond hf₁ ht₁ hf₂ ht₂ h₂
  rw [hsize] at hsecond h₂
  refine ⟨d₂, _, ?_, h₂, fun w hw => ?_⟩
  · rw [Scene.run_cons, hfirst, Scene.run_cons, hsecond]
    rfl
  · rcases List.mem_cons.mp hw with rfl | hw
    · rw [Writer.opened_id, file_push hf₂, hsize, if_neg (Nat.ne_of_lt (Nat.lt_succ_self _)),
        file_push hf₁, if_pos rfl]
      dsimp only
      omega
    · rw [List.mem_singleton.mp hw, Writer.opened_id, file_push hf₂, hsize, if_pos rfl]
      dsimp only
      omega

/-- The flush spares both writers, and what one of them commits is found by the next reader. -/
theorem interleaved_found (hd : EmptyRoot s.root d) (room : s.Roomy)
    (hkeys : Key.diskKey identity tag ≠ Key.diskKey identity other)
    (hspan : 1 < span s.staleAfter) :
    Undisturbed s ⟨d, []⟩ (interleaved identity tag other one two) ∧
      (Scene.run s ⟨d, []⟩ (interleaved identity tag other one two ++
        [.finish .commit 0])).observe s (.read identity tag) =
          .found (Key.diskKey identity tag) two := by
  obtain ⟨d₁, entries, hopened, h₁, recent⟩ := interleaved_opened s identity hd room hkeys
  obtain ⟨d₂, gone, hflush, -, h₂, -⟩ := h₁.flush
  obtain ⟨d₃, hone, -, h₃⟩ := h₂.write (i := 1) rfl one
  obtain ⟨d₄, htwo, -, -⟩ := h₃.write (i := 0) rfl two
  have calm : Undisturbed s ⟨d, []⟩ (interleaved identity tag other one two) := by
    rw [interleaved, undisturbed_append, hopened]
    exact ⟨⟨nofun, nofun, trivial⟩, fun _ w hw =>
      not_overdue_of_recent (Nat.lt_of_le_of_lt (recent w hw) hspan), nofun, nofun, trivial⟩
  have hwritten : Scene.run s ⟨d, []⟩ (interleaved identity tag other one two) =
      ⟨d₄, [(Writer.opened s identity tag d.files.size).wrote s two,
        (Writer.opened s identity other (d.files.size + 1)).wrote s one]⟩ := by
    rw [interleaved, Scene.run_append, hopened, Scene.run_cons, hflush, Scene.run_cons, hone,
      Scene.run_cons, htwo]
    rfl
  obtain ⟨entries', a, settled⟩ := (settled_start hd).run room calm
  rw [hwritten] at settled
  have hbytes : ((Writer.opened s identity tag d.files.size).wrote s two).written = two :=
    ByteArray.empty_append
  have hfound := settled.commit_found (i := 0) rfl
  rw [hbytes] at hfound
  refine ⟨calm, ?_⟩
  rw [Scene.run_append, hwritten]
  exact hfound

end Interleaved

/-- The flush comes upon two writers that are live, and the reader finds what one has committed. -/
theorem patient_follows_ledger :
    EmptyRoot patient.root .blank ∧ patient.Roomy ∧
      Undisturbed patient ⟨.blank, []⟩ (interleaved "url" "full" "small" ⟨#[111, 110, 101]⟩
        ⟨#[116, 119, 111]⟩ ++ [.finish .commit 0, .read "url" "full"]) ∧
      Follows patient .empty ⟨.blank, []⟩ (interleaved "url" "full" "small" ⟨#[111, 110, 101]⟩
        ⟨#[116, 119, 111]⟩ ++ [.finish .commit 0, .read "url" "full"]) ∧
      (Scene.run patient ⟨.blank, []⟩ (interleaved "url" "full" "small" ⟨#[111, 110, 101]⟩
        ⟨#[116, 119, 111]⟩ ++ [.finish .commit 0])).observe patient (.read "url" "full") =
          .found (Key.diskKey "url" "full") ⟨#[116, 119, 111]⟩ := by
  have hkeys : Key.diskKey "url" "full" ≠ Key.diskKey "url" "small" := by decide +kernel
  obtain ⟨spared, found⟩ := interleaved_found patient "url" ⟨#[111, 110, 101]⟩ ⟨#[116, 119, 111]⟩
    patient_empty patient_roomy hkeys (by decide)
  have calm : Undisturbed patient ⟨.blank, []⟩ (interleaved "url" "full" "small"
      ⟨#[111, 110, 101]⟩ ⟨#[116, 119, 111]⟩ ++ [.finish .commit 0, .read "url" "full"]) :=
    undisturbed_append.mpr ⟨spared, nofun, nofun, trivial⟩
  exact ⟨patient_empty, patient_roomy, calm,
    store_follows_ledger patient patient_empty patient_roomy calm, found⟩

end ImageCache
