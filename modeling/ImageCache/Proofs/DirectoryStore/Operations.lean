import ImageCache.DirectoryStore.Basic
import ImageCache.Proofs.DirectoryStore.PlainKey

namespace ImageCache

open Disk

/-- The same names and the same bytes; only times may differ. -/
structure Alike (d d' : Disk) : Prop where
  nodes : d'.nodes = d.nodes
  size : d'.files.size = d.files.size
  bytes : ∀ id, (d'.file id).bytes = (d.file id).bytes

theorem Alike.refl (d : Disk) : Alike d d := ⟨rfl, rfl, fun _ => rfl⟩

theorem Alike.trans {d d' d'' : Disk} (h : Alike d d') (h' : Alike d' d'') : Alike d d'' :=
  ⟨h'.nodes.trans h.nodes, h'.size.trans h.size, fun id => (h'.bytes id).trans (h.bytes id)⟩

theorem Alike.shelf {d d' : Disk} {root : Path} {entries : Entries} (h : Alike d d')
    (hs : Shelf root d entries) : Shelf root d' entries :=
  hs.same_nodes h.nodes (Nat.le_of_eq h.size.symm)

/-- One file has these bytes more behind its own; names and other files are as they were. -/
structure Grows (id : FileId) (bytes : ByteArray) (d d' : Disk) : Prop where
  nodes : d'.nodes = d.nodes
  size : d'.files.size = d.files.size
  own : (d'.file id).bytes = (d.file id).bytes ++ bytes
  others : ∀ other, other ≠ id → d'.file other = d.file other

theorem Grows.refl (id : FileId) (d : Disk) : Grows id ByteArray.empty d d :=
  ⟨rfl, rfl, ByteArray.append_empty.symm, fun _ _ => rfl⟩

theorem Grows.trans {id : FileId} {bytes more : ByteArray} {d d' d'' : Disk}
    (h : Grows id bytes d d') (h' : Grows id more d' d'') : Grows id (bytes ++ more) d d'' where
  nodes := h'.nodes.trans h.nodes
  size := h'.size.trans h.size
  own := by rw [h'.own, h.own, ByteArray.append_assoc]
  others other ho := (h'.others other ho).trans (h.others other ho)

theorem Grows.shelf {id : FileId} {bytes : ByteArray} {d d' : Disk} {root : Path}
    {entries : Entries} (h : Grows id bytes d d') (hs : Shelf root d entries) :
    Shelf root d' entries :=
  hs.same_nodes h.nodes (Nat.le_of_eq h.size.symm)

theorem file_setFile (d : Disk) (id other : FileId) (f : FileData) :
    (d.setFile id f).file other =
      if other = id ∧ id < d.files.size then f else d.file other := by
  simp only [file, setFile, Array.getD_eq_getD_getElem?]
  grind

theorem file_push {d d' : Disk} {f : FileData} (h : d'.files = d.files.push f) (id : FileId) :
    d'.file id = if id = d.files.size then f else d.file id := by
  simp only [file, h, Array.getD_eq_getD_getElem?, Array.getElem?_push]
  split <;> rfl

theorem touch_eq (id : FileId) (d : Disk) :
    touch id d = ((), { d with now := d.now + 1 }.setFile id
      { d.file id with modified := d.now + 1 }) := rfl

theorem touch_alike (id : FileId) (d : Disk) : Alike d (touch id d).2 := by
  rw [touch_eq]
  refine ⟨rfl, by simp [setFile], fun other => ?_⟩
  rw [file_setFile]
  split
  · rename_i h
    rw [h.1]
  · rfl

theorem makeDirs_existing {d : Disk} {p : Path} (h : d.find p = .ok (some .dir)) :
    makeDirs p d = (.ok (), d) := by
  rw [makeDirs]
  generalize hr : p.reverse = names
  cases names with
  | nil => rfl
  | cons name above =>
    have hp : (name :: above).reverse = p := by rw [← hr, List.reverse_reverse]
    have hm : makeDir p d = (.error (.system .exists), d) := by
      simp only [makeDir, h]
    have hdir : d.isDir p = true := by
      simp only [isDir, h]
    rw [makeDirsUp, hp]
    simp [bind, StateT.bind, hm, Fault.kind, SystemFault.kind, hdir, pure, get, getThe,
      MonadStateOf.get, StateT.get]
    rfl

namespace DirectoryStore

variable {s : DirectoryStore} {d : Disk} {entries : Entries} {key : String} {id : FileId}

/-- To read an entry changes no more than the time of its last use. -/
theorem read_alike (s : DirectoryStore) (key : String) (d : Disk) : Alike d (s.read key d).2 := by
  rw [read]
  cases EntryPath.resolve s.root key with
  | error e => exact .refl d
  | ok p =>
    simp only [bind, StateT.bind, get, getThe, MonadStateOf.get, StateT.get, pure]
    cases d.find p with
    | error e => exact .refl d
    | ok found =>
      match found with
      | none => exact .refl d
      | some .dir => exact .refl d
      | some (.file id) => exact touch_alike id d

theorem read_some (h : Shelf s.root d entries) (hk : PlainKey key) (hm : (key, id) ∈ entries) :
    s.read key d = (.ok (some ⟨.file id, 0⟩), (touch id d).2) := by
  simp only [read, hk.resolve_eq, bind, StateT.bind, get, getThe, MonadStateOf.get, StateT.get,
    pure, h.find_some hm]
  rfl

/-- That nothing stands under a key is no fault. -/
theorem read_none (h : Shelf s.root d entries) (hk : PlainKey key) (hn : Nameable s.root key)
    (hm : ∀ id, (key, id) ∉ entries) : s.read key d = (.ok none, d) := by
  simp only [read, hk.resolve_eq, bind, StateT.bind, get, getThe, MonadStateOf.get, StateT.get,
    pure, h.find_none hn hm]
  rfl

/-- An entry that a reader was given stands under its key. -/
theorem read_mem (h : Shelf s.root d entries) (hk : PlainKey key)
    (hr : (s.read key d).1 = .ok (some ⟨.file id, 0⟩)) : (key, id) ∈ entries := by
  refine h.mem_of_find ?_
  simp only [read, hk.resolve_eq, bind, StateT.bind, get, getThe, MonadStateOf.get, StateT.get,
    pure] at hr
  cases hf : d.find (s.root ++ [key]) with
  | error e =>
    rw [hf] at hr
    change (if e.kind = .notFound then Except.ok none else .error e) = _ at hr
    split at hr <;> cases hr
  | ok found =>
    rw [hf] at hr
    match found with
    | none => cases hr
    | some .dir => cases hr
    | some (.file other) =>
      have he : some (⟨.file other, 0⟩ : OpenFile) = some ⟨.file id, 0⟩ := Except.ok.inj hr
      have hid : other = id := by simpa using he
      rw [hid]

theorem stage_taken (h : Shelf s.root d entries) (hk : PlainKey key)
    (hm : (stagedName key, id) ∈ entries) : s.stage key d = (.ok none, d) := by
  simp only [stage, hk.resolve_eq, bind, StateT.bind, List.dropLast_concat,
    makeDirs_existing h.dir, staging_eq, h.create_some hm, Fault.kind, SystemFault.kind]
  rfl

def handle (s : DirectoryStore) (key : String) (id : FileId) (n : Nat) : StagedEntry :=
  ⟨⟨.file id, n⟩, s.root ++ [stagedName key], s.root ++ [key]⟩

theorem stage_free (h : Shelf s.root d entries) (hk : PlainKey key)
    (hn : Nameable s.root (stagedName key)) (hm : ∀ id, (stagedName key, id) ∉ entries) :
    ∃ d', s.stage key d = (.ok (some (s.handle key d.files.size 0)), d') ∧
      d'.files = d.files.push ⟨.empty, d.now + 1⟩ ∧ d'.now = d.now + 1 ∧
      Shelf s.root d' (entries ++ [(stagedName key, d.files.size)]) := by
  obtain ⟨d', hc, hf, ht, hs⟩ := h.create_none hn hm
  refine ⟨d', ?_, hf, ht, hs⟩
  simp only [stage, hk.resolve_eq, bind, StateT.bind, List.dropLast_concat,
    makeDirs_existing h.dir, staging_eq, hc]
  rfl

/-- Where the path is too long no writer is to be had. -/
theorem stage_long (h : Shelf s.root d entries) (hk : PlainKey key)
    (hp : pathLimit < pathSize (s.root ++ [stagedName key])) :
    s.stage key d = (.error (.system .nameTooLong), d) := by
  have hc : createFile (s.root ++ [stagedName key]) d = (.error (.system .nameTooLong), d) := by
    simp only [createFile, find_child_long h.dir hk.stagedName_nul hp]
  simp only [stage, hk.resolve_eq, bind, StateT.bind, List.dropLast_concat,
    makeDirs_existing h.dir, staging_eq, hc, Fault.kind, SystemFault.kind]
  rfl

/-- Unless the staging name is free and fits, no writer is to be had and nothing happens. -/
theorem stage_cases (h : Shelf s.root d entries) (hk : PlainKey key) :
    (∃ reply, s.stage key d = (reply, d) ∧ ∀ writer, reply ≠ .ok (some writer)) ∨
      Nameable s.root (stagedName key) ∧ ∀ id, (stagedName key, id) ∉ entries := by
  by_cases hp : pathSize (s.root ++ [stagedName key]) ≤ pathLimit
  · by_cases hm : ∃ id, (stagedName key, id) ∈ entries
    · obtain ⟨id, hm⟩ := hm
      exact .inl ⟨_, s.stage_taken h hk hm, by simp⟩
    · exact .inr ⟨hk.stagedName_nameable hp, fun id hc => hm ⟨id, hc⟩⟩
  · exact .inl ⟨_, s.stage_long h hk (Nat.not_le.mp hp), by simp⟩

/-- A write at the end of a file puts the bytes behind those that are there. -/
theorem overwrite_end (old bytes : ByteArray) :
    OpenFile.overwrite old old.size bytes = old ++ bytes := by
  have hgap : (List.replicate (old.size - old.size) (0 : UInt8)).toByteArray = ByteArray.empty := by
    rw [Nat.sub_self]
    rfl
  have hrest : old.extract (old.size + bytes.size) old.size = ByteArray.empty := by
    rw [ByteArray.extract_eq_empty_iff]
    omega
  rw [OpenFile.overwrite, hgap, hrest, ByteArray.extract_zero_size, ByteArray.append_empty,
    ByteArray.append_empty]

/-- What a writer is given goes behind what its file has, and no other file changes. -/
theorem write_handle (staging final : Path) {n : Nat} (hid : id < d.files.size)
    (hn : (d.file id).bytes.size = n) (bytes : ByteArray) :
    ∃ d', StagedEntry.write bytes (⟨⟨.file id, n⟩, staging, final⟩, d) =
        (.ok bytes.size, (⟨⟨.file id, n + bytes.size⟩, staging, final⟩, d')) ∧
      Grows id bytes d d' := by
  subst hn
  by_cases hz : bytes.size = 0
  · have he : bytes = ByteArray.empty := ByteArray.size_eq_zero_iff.mp hz
    refine ⟨d, ?_, he ▸ .refl id d⟩
    simp [StagedEntry.write, OpenFile.write, hz]
  · refine ⟨{ d with now := d.now + 1 }.setFile id ⟨(d.file id).bytes ++ bytes, d.now + 1⟩,
      ?_, rfl, by simp [setFile], ?_, ?_⟩
    · simp only [StagedEntry.write, OpenFile.write, hz, if_false, stamp]
      exact congrArg (fun b => (Except.ok bytes.size,
        ((⟨⟨.file id, _⟩, staging, final⟩ : StagedEntry), setFile _ id ⟨b, _⟩)))
        (overwrite_end (d.file id).bytes bytes)
    · rw [file_setFile, if_pos ⟨rfl, hid⟩]
    · intro other ho
      rw [file_setFile, if_neg fun h => ho h.1]
      rfl

theorem write_end (s : DirectoryStore) (key : String) {n : Nat} (hid : id < d.files.size)
    (hn : (d.file id).bytes.size = n) (bytes : ByteArray) :
    ∃ d', StagedEntry.write bytes (s.handle key id n, d) =
        (.ok bytes.size, (s.handle key id (n + bytes.size), d')) ∧ Grows id bytes d d' :=
  write_handle _ _ hid hn bytes

theorem commit_some (h : Shelf s.root d entries) (hk : PlainKey key)
    (hm : (stagedName key, id) ∈ entries) (own : FileId) (n : Nat) :
    ∃ d', (s.handle key own n).commit d = ((.ok (), none), d') ∧ d'.files = d.files ∧
      d'.now = d.now ∧ Shelf s.root d' (entries.renamed (stagedName key) key) := by
  obtain ⟨d', hr, hf, hn, hs⟩ := h.rename_some hm (hk.nameable (h.nameable _ hm))
  refine ⟨d', ?_, hf, hn, hs⟩
  simp only [StagedEntry.commit, handle, bind, StateT.bind, hr]
  rfl

theorem commit_none (h : Shelf s.root d entries) (hn : Nameable s.root (stagedName key))
    (hm : ∀ id, (stagedName key, id) ∉ entries) (own : FileId) (n : Nat) :
    (s.handle key own n).commit d =
      ((.error (.system .noEntry), some (.system .noEntry)), d) := by
  simp only [StagedEntry.commit, handle, bind, StateT.bind, h.rename_none hn hm,
    h.remove_none hn hm]
  rfl

theorem abort_some (h : Shelf s.root d entries) (hm : (stagedName key, id) ∈ entries)
    (own : FileId) (n : Nat) : ((s.handle key own n).abort d).1 = .ok () := by
  simp only [StagedEntry.abort, handle, bind, StateT.bind, h.remove_some hm]
  rfl

theorem abort_disk (w : StagedEntry) (d : Disk) : (w.abort d).2 = (removeFile w.staging d).2 := by
  obtain ⟨⟨reply, d'⟩, hr⟩ : ∃ out, removeFile w.staging d = out := ⟨_, rfl⟩
  simp only [StagedEntry.abort, bind, StateT.bind, hr]
  cases reply with
  | ok _ => rfl
  | error e => rfl

theorem discard_disk (w : StagedEntry) (d : Disk) :
    (w.discard d).2 = (removeFile w.staging d).2 := rfl

end DirectoryStore

end ImageCache
