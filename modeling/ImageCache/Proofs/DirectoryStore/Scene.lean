import ImageCache.Proofs.DirectoryStore.Prune

namespace ImageCache

open Disk

/-- A writer that is live: for which rendition, its handle, and all that was written through it. -/
structure Writer where
  identity : String
  tag : String
  entry : StagedEntry
  written : ByteArray

namespace Writer

def key (w : Writer) : String := Key.diskKey w.identity w.tag

def id (w : Writer) : FileId :=
  match w.entry.file.node with
  | .file id => id
  | .dir => 0

end Writer

structure Scene where
  disk : Disk
  live : List Writer

inductive Finish where
  | commit
  | abort
  | drop

def Finish.run : Finish → StagedEntry → Disk → Disk
  | .commit, entry, d => (entry.commit d).2
  | .abort, entry, d => (entry.abort d).2
  | .drop, entry, d => (entry.discard d).2

/-- A call to the store or to one of the live writers, given by its place. -/
inductive Act where
  | stage (identity tag : String)
  | write (i : Nat) (bytes : ByteArray)
  | finish (how : Finish) (i : Nat)
  /-- The writer is gone and never finished. -/
  | forget (i : Nat)
  | read (identity tag : String)
  | flush
  | wait (nanoseconds : Nat)

namespace Scene

def step (s : DirectoryStore) (σ : Scene) : Act → Scene
  | .stage identity tag =>
    match s.stage (Key.diskKey identity tag) σ.disk with
    | (.ok (some entry), d) => ⟨d, σ.live ++ [⟨identity, tag, entry, .empty⟩]⟩
    | (_, d) => { σ with disk := d }
  | .write i bytes =>
    match σ.live[i]? with
    | none => σ
    | some w =>
      match StagedEntry.write bytes (w.entry, σ.disk) with
      | (.ok n, (entry, d)) =>
        ⟨d, σ.live.set i { w with entry, written := w.written ++ bytes.extract 0 n }⟩
      | (.error _, (entry, d)) => ⟨d, σ.live.set i { w with entry }⟩
  | .finish how i =>
    match σ.live[i]? with
    | none => σ
    | some w => ⟨how.run w.entry σ.disk, σ.live.eraseIdx i⟩
  | .forget i => { σ with live := σ.live.eraseIdx i }
  | .read identity tag => { σ with disk := (s.read (Key.diskKey identity tag) σ.disk).2 }
  | .flush => { σ with disk := (s.prune σ.disk).2 }
  | .wait nanoseconds => { σ with disk := σ.disk.wait nanoseconds }

def run (s : DirectoryStore) (σ : Scene) (acts : List Act) : Scene := acts.foldl (step s) σ

theorem run_cons (s : DirectoryStore) (σ : Scene) (act : Act) (rest : List Act) :
    σ.run s (act :: rest) = (σ.step s act).run s rest := rfl

theorem run_append (s : DirectoryStore) (σ : Scene) (acts more : List Act) :
    σ.run s (acts ++ more) = (σ.run s acts).run s more := List.foldl_append

end Scene

/-- A live writer has a file of its own, and in it just what was written through it. -/
structure Writer.Owns (s : DirectoryStore) (d : Disk) (w : Writer) : Prop where
  handle : w.entry = s.handle w.key w.id w.written.size
  stored : w.id < d.files.size
  bytes : (d.file w.id).bytes = w.written
  nameable : Nameable s.root (stagedName w.key)

theorem Writer.Owns.staging {s : DirectoryStore} {d : Disk} {w : Writer} (h : w.Owns s d) :
    w.entry.staging = s.root ++ [stagedName w.key] := by
  rw [h.handle]
  rfl

theorem Writer.Owns.node {s : DirectoryStore} {d : Disk} {w : Writer} (h : w.Owns s d) :
    w.entry.file.node = .file w.id := by
  rw [h.handle]
  rfl

/-- Every live writer has a file of its own. The file may have lost its name, or may have got that
of a committed entry, but it is never staged for another key. -/
structure Orderly (s : DirectoryStore) (σ : Scene) (entries : Entries) : Prop where
  shelf : Shelf s.root σ.disk entries
  owns : ∀ w ∈ σ.live, w.Owns s σ.disk
  distinct : (σ.live.map Writer.id).Nodup
  filed : ∀ w ∈ σ.live, ∀ name, (name, w.id) ∈ entries → name = stagedName w.key ∨ PlainKey name

def Writer.opened (s : DirectoryStore) (identity tag : String) (id : FileId) : Writer :=
  ⟨identity, tag, s.handle (Key.diskKey identity tag) id 0, .empty⟩

theorem Writer.opened_id (s : DirectoryStore) (identity tag : String) (id : FileId) :
    (Writer.opened s identity tag id).id = id := rfl

def Writer.wrote (s : DirectoryStore) (w : Writer) (bytes : ByteArray) : Writer :=
  ⟨w.identity, w.tag, s.handle w.key w.id (w.written.size + bytes.size), w.written ++ bytes⟩

theorem Writer.wrote_id (s : DirectoryStore) (w : Writer) (bytes : ByteArray) :
    (w.wrote s bytes).id = w.id := rfl

/-- Writing leaves every writer its file. -/
theorem Writer.map_id_set (s : DirectoryStore) (bytes : ByteArray) {live : List Writer} {i : Nat}
    {w : Writer} (hw : live[i]? = some w) :
    (live.set i (w.wrote s bytes)).map Writer.id = live.map Writer.id := by
  have hlt : i < live.length := (List.getElem?_eq_some_iff.mp hw).1
  rw [List.map_set, Writer.wrote_id]
  refine List.ext_getElem? fun j => ?_
  rw [List.getElem?_set]
  split
  · rename_i he
    subst he
    rw [if_pos (by simpa using hlt), List.getElem?_map, hw]
    rfl
  · rfl

theorem Writer.key_plain (w : Writer) : PlainKey w.key := diskKey_plain w.identity w.tag

/-- What finishing a writer of a key makes of the names, if something is staged for the key. -/
def Finish.entries (how : Finish) (key : String) (entries : Entries) : Entries :=
  match how with
  | .commit => entries.renamed (stagedName key) key
  | .abort => entries.without (stagedName key)
  | .drop => entries.without (stagedName key)

theorem Finish.mem_entries {how : Finish} {key name : String} {id : FileId} {entries : Entries}
    (h : (name, id) ∈ how.entries key entries) : (name, id) ∈ entries ∨ name = key := by
  cases how with
  | commit =>
    rcases Entries.mem_renamed.mp h with ⟨hn, -, -⟩ | ⟨hm, -, -⟩
    · exact .inr hn
    · exact .inl hm
  | abort => exact .inl (Entries.mem_without.mp h).1
  | drop => exact .inl (Entries.mem_without.mp h).1

/-- Other names than those of the key stay. -/
theorem Finish.mem_entries_of_ne (how : Finish) {key name : String} {id : FileId}
    {entries : Entries} (h : (name, id) ∈ entries) (hs : name ≠ stagedName key) (hk : name ≠ key) :
    (name, id) ∈ how.entries key entries := by
  cases how with
  | commit => exact Entries.mem_renamed.mpr (.inr ⟨h, hs, hk⟩)
  | abort => exact Entries.mem_without.mpr ⟨h, hs⟩
  | drop => exact Entries.mem_without.mpr ⟨h, hs⟩

section Finishing

variable {s : DirectoryStore} {d : Disk} {entries : Entries} {key : String}

theorem Finish.run_some (how : Finish) (h : Shelf s.root d entries) (hk : PlainKey key)
    {id : FileId} (hm : (stagedName key, id) ∈ entries) (own : FileId) (n : Nat) :
    (how.run (s.handle key own n) d).files = d.files ∧
      Shelf s.root (how.run (s.handle key own n) d) (how.entries key entries) := by
  cases how with
  | commit =>
    obtain ⟨d', hc, hf, -, hs⟩ := s.commit_some h hk hm own n
    rw [run, hc]
    exact ⟨hf, hs⟩
  | abort =>
    rw [run, DirectoryStore.abort_disk, DirectoryStore.handle, h.remove_some hm]
    exact ⟨rfl, h.unlink _⟩
  | drop =>
    rw [run, DirectoryStore.discard_disk, DirectoryStore.handle, h.remove_some hm]
    exact ⟨rfl, h.unlink _⟩

/-- Where nothing is staged for the key, finishing a writer does nothing to the disk. -/
theorem Finish.run_none (how : Finish) (h : Shelf s.root d entries)
    (hn : Nameable s.root (stagedName key)) (hm : ∀ id, (stagedName key, id) ∉ entries)
    (own : FileId) (n : Nat) : how.run (s.handle key own n) d = d := by
  cases how with
  | commit => rw [run, s.commit_none h hn hm]
  | abort => rw [run, DirectoryStore.abort_disk, DirectoryStore.handle, h.remove_none hn hm]
  | drop => rw [run, DirectoryStore.discard_disk, DirectoryStore.handle, h.remove_none hn hm]

end Finishing

namespace Orderly

variable {s : DirectoryStore} {σ : Scene} {entries entries' : Entries}

/-- No two live writers have the same file. -/
theorem other_id (h : Orderly s σ entries) {i j : Nat} {w other : Writer}
    (hw : σ.live[i]? = some w) (ho : σ.live[j]? = some other) (hne : j ≠ i) : other.id ≠ w.id := by
  intro he
  have hj : (σ.live.map Writer.id)[j]? = (σ.live.map Writer.id)[i]? := by
    rw [List.getElem?_map, List.getElem?_map, hw, ho, Option.map_some, Option.map_some, he]
  have hlt : j < (σ.live.map Writer.id).length := by
    rw [List.length_map]
    exact (List.getElem?_eq_some_iff.mp ho).1
  exact hne ((List.getElem?_inj hlt h.distinct).mp hj)

/-- Writers may go and names may change, as long as no bytes do. -/
theorem change {d : Disk} {live : List Writer} (h : Orderly s σ entries)
    (hl : live.Sublist σ.live) (hs : Shelf s.root d entries')
    (hsize : σ.disk.files.size ≤ d.files.size)
    (hb : ∀ id, (d.file id).bytes = (σ.disk.file id).bytes)
    (hf : ∀ name id, (name, id) ∈ entries' → (name, id) ∈ entries ∨ PlainKey name) :
    Orderly s ⟨d, live⟩ entries' where
  shelf := hs
  owns w hw := by
    have ho := h.owns w (hl.subset hw)
    exact ⟨ho.handle, Nat.lt_of_lt_of_le ho.stored hsize, (hb w.id).trans ho.bytes, ho.nameable⟩
  distinct := h.distinct.sublist (hl.map _)
  filed w hw name hm := by
    rcases hf name w.id hm with hm | hp
    · exact h.filed w (hl.subset hw) name hm
    · exact .inr hp

theorem alike {d : Disk} (h : Orderly s σ entries) (ha : Alike σ.disk d) :
    Orderly s ⟨d, σ.live⟩ entries :=
  h.change (List.Sublist.refl _) (ha.shelf h.shelf) (Nat.le_of_eq ha.size.symm) ha.bytes
    fun _ _ hm => .inl hm

/-- A writer is finished, with whatever stands under its staging name. -/
theorem finish_staged (h : Orderly s σ entries) (how : Finish) {i : Nat} {w : Writer}
    (hw : σ.live[i]? = some w) {id : FileId} (hm : (stagedName w.key, id) ∈ entries) :
    (how.run w.entry σ.disk).files = σ.disk.files ∧
      Orderly s ⟨how.run w.entry σ.disk, σ.live.eraseIdx i⟩ (how.entries w.key entries) := by
  have ho := h.owns w (List.mem_of_getElem? hw)
  have hl := List.eraseIdx_sublist σ.live i
  rw [ho.handle]
  obtain ⟨hf, hs⟩ := how.run_some h.shelf w.key_plain hm w.id w.written.size
  refine ⟨hf, h.change hl hs (by rw [hf]) (fun id => by rw [file, hf, file]) ?_⟩
  intro name id hm
  rcases Finish.mem_entries hm with hm | rfl
  · exact .inl hm
  · exact .inr w.key_plain

theorem finish (h : Orderly s σ entries) (how : Finish) {i : Nat} {w : Writer}
    (hw : σ.live[i]? = some w) : (how.run w.entry σ.disk).files = σ.disk.files ∧
      ∃ entries', Orderly s ⟨how.run w.entry σ.disk, σ.live.eraseIdx i⟩ entries' := by
  by_cases hm : ∃ id, (stagedName w.key, id) ∈ entries
  · obtain ⟨id, hm⟩ := hm
    obtain ⟨hf, h'⟩ := h.finish_staged how hw hm
    exact ⟨hf, _, h'⟩
  · have ho := h.owns w (List.mem_of_getElem? hw)
    have hn := how.run_none h.shelf ho.nameable (fun id hc => hm ⟨id, hc⟩) w.id w.written.size
    rw [ho.handle, hn]
    exact ⟨rfl, entries, h.change (List.eraseIdx_sublist σ.live i) h.shelf (Nat.le_refl _)
      (fun _ => rfl) fun _ _ hm => .inl hm⟩

/-- A flush takes names off the shelf, of staged files just those that are stale. -/
theorem flush (h : Orderly s σ entries) :
    ∃ d, ∃ gone : List String, σ.step s .flush = ⟨d, σ.live⟩ ∧ d.files = σ.disk.files ∧
      Orderly s ⟨d, σ.live⟩ (entries.filter fun entry => entry.1 ∉ gone) ∧
      ∀ entry ∈ entries, DirectoryStore.isStagedEntry s.root entry = true →
        (entry.1 ∈ gone ↔
          s.isStale σ.disk.now (DirectoryStore.info s.root σ.disk entry) = true) := by
  obtain ⟨n, d, gone, hp, hl, hiff⟩ := s.prune_shelf h.shelf
  refine ⟨d, gone, by rw [Scene.step, hp], hl.files, ?_, hiff⟩
  exact h.change (List.Sublist.refl _) hl.shelf (by rw [hl.files])
    (fun id => by rw [file, hl.files, file]) fun _ _ hm => .inl (List.mem_filter.mp hm).1

/-- A writer that is had owns the file that was made for it. -/
theorem stage_free (h : Orderly s σ entries) (identity tag : String)
    (hn : Nameable s.root (stagedName (Key.diskKey identity tag)))
    (hm : ∀ id, (stagedName (Key.diskKey identity tag), id) ∉ entries) :
    ∃ d, σ.step s (.stage identity tag) =
        ⟨d, σ.live ++ [.opened s identity tag σ.disk.files.size]⟩ ∧
      d.files = σ.disk.files.push ⟨.empty, σ.disk.now + 1⟩ ∧ d.now = σ.disk.now + 1 ∧
      Orderly s ⟨d, σ.live ++ [.opened s identity tag σ.disk.files.size]⟩
        (entries ++ [(stagedName (Key.diskKey identity tag), σ.disk.files.size)]) := by
  obtain ⟨d, hst, hf, ht, hs⟩ := s.stage_free h.shelf (diskKey_plain identity tag) hn hm
  refine ⟨d, by rw [Scene.step, hst]; rfl, hf, ht, hs, ?_, ?_, ?_⟩
  · intro w hw
    rcases List.mem_append.mp hw with hw | hw
    · have ho := h.owns w hw
      refine ⟨ho.handle, ?_, ?_, ho.nameable⟩
      · rw [hf, Array.size_push]
        exact Nat.lt_succ_of_lt ho.stored
      · rw [file_push hf, if_neg (Nat.ne_of_lt ho.stored), ho.bytes]
    · rw [List.mem_singleton.mp hw]
      refine ⟨rfl, ?_, ?_, hn⟩
      · rw [hf, Array.size_push]
        exact Nat.lt_succ_self _
      · rw [Writer.opened_id, file_push hf, if_pos rfl]
        rfl
  · rw [List.map_append]
    refine List.nodup_append.mpr ⟨h.distinct, List.nodup_singleton _, ?_⟩
    -- All files that writers have so far are stored, and the new one comes after them.
    rintro _ ha _ hb rfl
    obtain ⟨w, hw, hid⟩ := List.mem_map.mp ha
    have hlt := (h.owns w hw).stored
    rw [hid, List.mem_singleton.mp hb] at hlt
    exact Nat.lt_irrefl _ hlt
  · intro w hw name hm
    rcases List.mem_append.mp hw with hw | hw <;> rcases List.mem_append.mp hm with hm | hm
    · exact h.filed w hw name hm
    · have hlt := (h.owns w hw).stored
      rw [(Prod.mk.inj (List.mem_singleton.mp hm)).2] at hlt
      exact absurd hlt (Nat.lt_irrefl _)
    · rw [List.mem_singleton.mp hw] at hm
      exact absurd (h.shelf.stored _ hm) (Nat.lt_irrefl _)
    · rw [List.mem_singleton.mp hw]
      exact .inl (Prod.mk.inj (List.mem_singleton.mp hm)).1

/-- Whoever asks for a writer gets one of a new file, or nothing happens. -/
theorem stage_cases (h : Orderly s σ entries) (identity tag : String) :
    σ.step s (.stage identity tag) = σ ∨
      ∃ d, σ.step s (.stage identity tag) =
          ⟨d, σ.live ++ [.opened s identity tag σ.disk.files.size]⟩ ∧
        d.files = σ.disk.files.push ⟨.empty, σ.disk.now + 1⟩ ∧
        Orderly s ⟨d, σ.live ++ [.opened s identity tag σ.disk.files.size]⟩
          (entries ++ [(stagedName (Key.diskKey identity tag), σ.disk.files.size)]) := by
  rcases s.stage_cases h.shelf (diskKey_plain identity tag) with ⟨reply, hst, hno⟩ | ⟨hn, hm⟩
  · refine .inl ?_
    rw [Scene.step, hst]
    match reply, hno with
    | .error e, _ => rfl
    | .ok none, _ => rfl
    | .ok (some writer), hno => exact absurd rfl (hno writer)
  · obtain ⟨d, hstep, hf, -, ho⟩ := h.stage_free identity tag hn hm
    exact .inr ⟨d, hstep, hf, ho⟩

/-- Bytes written through a writer go to its own file. -/
theorem write (h : Orderly s σ entries) {i : Nat} {w : Writer} (hw : σ.live[i]? = some w)
    (bytes : ByteArray) : ∃ d, σ.step s (.write i bytes) = ⟨d, σ.live.set i (w.wrote s bytes)⟩ ∧
      Grows w.id bytes σ.disk d ∧ Orderly s ⟨d, σ.live.set i (w.wrote s bytes)⟩ entries := by
  have ho := h.owns w (List.mem_of_getElem? hw)
  obtain ⟨d, hd, grows⟩ := s.write_end w.key ho.stored (congrArg ByteArray.size ho.bytes) bytes
  have hstep : σ.step s (.write i bytes) = ⟨d, σ.live.set i (w.wrote s bytes)⟩ := by
    rw [Scene.step, hw]
    dsimp only
    rw [ho.handle, hd]
    dsimp only
    rw [ByteArray.extract_zero_size]
    rfl
  have hlt : i < σ.live.length := (List.getElem?_eq_some_iff.mp hw).1
  -- The other writers have other files, to which nothing happened.
  have members : ∀ w' ∈ σ.live.set i (w.wrote s bytes),
      w' = w.wrote s bytes ∨ w' ∈ σ.live ∧ w'.id ≠ w.id := by
    intro w' hw'
    obtain ⟨j, hj⟩ := List.mem_iff_getElem?.mp hw'
    rw [List.getElem?_set, if_pos hlt] at hj
    split at hj
    · exact .inl (Option.some.inj hj).symm
    · rename_i hne
      exact .inr ⟨List.mem_of_getElem? hj, h.other_id hw hj (Ne.symm hne)⟩
  refine ⟨d, hstep, grows, grows.shelf h.shelf, ?_, ?_, ?_⟩
  · intro w' hw'
    rcases members w' hw' with rfl | ⟨hw', hne⟩
    · refine ⟨?_, ?_, ?_, ho.nameable⟩
      · rw [Writer.wrote, ← ByteArray.size_append]
        rfl
      · rw [grows.size]
        exact ho.stored
      · rw [Writer.wrote_id, grows.own, ho.bytes]
        rfl
    · have ho' := h.owns w' hw'
      refine ⟨ho'.handle, ?_, ?_, ho'.nameable⟩
      · rw [grows.size]
        exact ho'.stored
      · rw [grows.others w'.id hne, ho'.bytes]
  · rw [Writer.map_id_set s bytes hw]
    exact h.distinct
  · intro w' hw' name hm
    rcases members w' hw' with rfl | ⟨hw', -⟩
    · exact h.filed w (List.mem_of_getElem? hw) name hm
    · exact h.filed w' hw' name hm

/-- Whatever is done next, live writers keep files of their own. -/
theorem step (h : Orderly s σ entries) (act : Act) :
    ∃ entries', Orderly s (σ.step s act) entries' := by
  cases act with
  | stage identity tag =>
    rcases h.stage_cases identity tag with hsame | ⟨d, hstep, -, ho⟩
    · rw [hsame]
      exact ⟨entries, h⟩
    · rw [hstep]
      exact ⟨_, ho⟩
  | write i bytes =>
    cases hw : σ.live[i]? with
    | none =>
      rw [Scene.step, hw]
      exact ⟨entries, h⟩
    | some w =>
      obtain ⟨d, hstep, -, ho⟩ := h.write hw bytes
      rw [hstep]
      exact ⟨entries, ho⟩
  | finish how i =>
    rw [Scene.step]
    cases hw : σ.live[i]? with
    | none => exact ⟨entries, h⟩
    | some w => exact (h.finish how hw).2
  | forget i =>
    exact ⟨entries, h.change (List.eraseIdx_sublist σ.live i) h.shelf (Nat.le_refl _)
      (fun _ => rfl) fun _ _ hm => .inl hm⟩
  | read identity tag => exact ⟨entries, h.alike (s.read_alike _ σ.disk)⟩
  | flush =>
    obtain ⟨d, gone, hstep, -, ho, -⟩ := h.flush
    rw [hstep]
    exact ⟨_, ho⟩
  | wait nanoseconds => exact ⟨entries, h.alike ⟨rfl, rfl, fun _ => rfl⟩⟩

end Orderly

theorem run_orderly {s : DirectoryStore} {σ : Scene} {entries : Entries} (h : Orderly s σ entries)
    (acts : List Act) : ∃ entries', Orderly s (σ.run s acts) entries' := by
  induction acts generalizing σ entries with
  | nil => exact ⟨entries, h⟩
  | cons act rest ih =>
    obtain ⟨entries', ho⟩ := h.step act
    exact ih ho

/-- The scene before anything was asked of a store on an empty root. -/
theorem orderly_start {s : DirectoryStore} {d : Disk} (h : EmptyRoot s.root d) :
    Orderly s ⟨d, []⟩ [] where
  shelf := h.shelf
  owns := by simp
  distinct := List.nodup_nil
  filed := by simp

end ImageCache
