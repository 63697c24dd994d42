import ImageCache.DirectoryStore.EntryPath
import ImageCache.Proofs.DirectoryStore.Shelf
import ImageCache.Proofs.Keys

namespace ImageCache

open Disk

def hexDigits : List Char := "0123456789abcdef".toList

/-- A key of the form that hashing gives. -/
structure PlainKey (key : String) : Prop where
  digits : ∀ c ∈ key.toList, c ∈ hexDigits
  length : key.toList.length = 64

/-- The name under which the entry of a key is staged. -/
def stagedName (key : String) : String := key ++ EntryPath.suffix

theorem digit_mem {n : UInt8} (h : n.toNat < 16) : Text.Hex.digit n ∈ hexDigits := by
  obtain ⟨k, hk⟩ : ∃ k, n.toNat = k := ⟨_, rfl⟩
  have hn : n = UInt8.ofNat k := by rw [← hk, UInt8.ofNat_toNat]
  rw [hk] at h
  subst hn
  interval_cases k <;> decide

theorem pair_mem (b : UInt8) : ∀ c ∈ Text.Hex.pair b, c ∈ hexDigits := by
  intro c hc
  rcases List.mem_cons.mp hc with rfl | hc
  · exact digit_mem (Text.Hex.high_lt b)
  · rw [List.mem_singleton.mp hc]
    exact digit_mem (Text.Hex.low_lt b)

theorem diskKey_plain (identity tag : String) : PlainKey (Key.diskKey identity tag) where
  digits := by
    intro c hc
    rw [Key.diskKey, Text.Hex.encode, String.toList_ofList] at hc
    obtain ⟨b, -, hb⟩ := List.mem_flatMap.mp hc
    exact pair_mem b c hb
  length := by
    rw [Key.diskKey, Text.Hex.encode, String.toList_ofList, List.length_flatMap]
    simp [Text.Hex.pair]

theorem utf8Encode_size {cs : List Char} (h : ∀ c ∈ cs, c.utf8Size = 1) :
    cs.utf8Encode.size = cs.length := by
  induction cs with
  | nil => rfl
  | cons c rest ih =>
    obtain ⟨hc, hrest⟩ := List.forall_mem_cons.mp h
    rw [List.utf8Encode_cons, ByteArray.size_append, ih hrest, List.utf8Encode_singleton,
      List.size_toByteArray, String.length_utf8EncodeChar, hc, List.length_cons, Nat.add_comm]

theorem staging_eq (root : Path) (key : String) :
    EntryPath.staging (root ++ [key]) = root ++ [stagedName key] := by
  simp [EntryPath.staging, stagedName]

theorem isStaged_stagedName (root : Path) (key : String) :
    EntryPath.isStaged (root ++ [stagedName key]) = true := by
  simp [EntryPath.isStaged, stagedName]

theorem stagedName_inj {key other : String} (h : stagedName key = stagedName other) :
    key = other := by
  have hl := congrArg String.toList h
  rw [stagedName, stagedName, String.toList_append, String.toList_append] at hl
  exact String.toList_inj.mp (List.append_cancel_right hl)

namespace PlainKey

variable {key : String}

theorem not_mem (h : PlainKey key) {c : Char} (hc : c ∉ hexDigits) : c ∉ key.toList :=
  fun hm => hc (h.digits c hm)

theorem ne_nil (h : PlainKey key) : key.toList ≠ [] := by
  intro he
  have hl := h.length
  rw [he] at hl
  cases hl

theorem split_self {cs : List Char} (h : '/' ∉ cs) : EntryPath.split cs = [cs] := by
  induction cs with
  | nil => rfl
  | cons c rest ih =>
    rw [List.mem_cons, not_or] at h
    rw [EntryPath.split, if_neg (Ne.symm h.1), ih h.2]

theorem names_eq (h : PlainKey key) : EntryPath.names key = [key] := by
  have hsplit := split_self (h.not_mem (c := '/') (by decide))
  have hne : key ≠ "" := by
    rintro rfl
    exact h.ne_nil rfl
  have hdot : key ≠ "." := by
    rintro rfl
    exact h.not_mem (c := '.') (by decide) (by decide)
  simp [EntryPath.names, hsplit, hne, hdot]

theorem not_suffix (h : PlainKey key) :
    EntryPath.suffix.toList.isSuffixOf key.toList = false := by
  rw [Bool.eq_false_iff]
  intro hs
  have hdot : '.' ∈ EntryPath.suffix.toList := by decide
  exact h.not_mem (c := '.') (by decide) ((List.isSuffixOf_iff_suffix.mp hs).subset hdot)

/-- The entry of a plain key stands right inside the root, under that very name. -/
theorem resolve_eq (h : PlainKey key) (root : Path) :
    EntryPath.resolve root key = .ok (root ++ [key]) := by
  have hne : key ≠ "" := by
    rintro rfl
    exact h.ne_nil rfl
  have hup : key ≠ ".." := by
    rintro rfl
    exact h.not_mem (c := '.') (by decide) (by decide)
  have hslash : key.toList.head? ≠ some '/' := by
    intro hs
    exact h.not_mem (c := '/') (by decide) (List.mem_of_mem_head? hs)
  have hp : EntryPath.follow root [key] = root ++ [key] := by
    simp [EntryPath.follow, EntryPath.step, hup]
  simp [EntryPath.resolve, h.not_suffix, hne, hslash, h.names_eq, hp]

theorem isStaged_key (h : PlainKey key) (root : Path) :
    EntryPath.isStaged (root ++ [key]) = false := by
  simp [EntryPath.isStaged, h.not_suffix]

/-- No entry has the name of a staged file. -/
theorem ne_stagedName (h : PlainKey key) (other : String) : key ≠ stagedName other := by
  intro he
  have hdot : '.' ∈ (stagedName other).toList := by
    rw [stagedName, String.toList_append]
    exact List.mem_append_right _ (by decide)
  exact h.not_mem (c := '.') (by decide) (he ▸ hdot)

theorem utf8ByteSize_eq (h : PlainKey key) : key.utf8ByteSize = 64 := by
  have ascii : hexDigits.all (·.utf8Size = 1) = true := by decide
  have one : ∀ c ∈ key.toList, c.utf8Size = 1 := by
    intro c hc
    simpa using List.all_eq_true.mp ascii c (h.digits c hc)
  rw [← String.size_toByteArray, ← String.utf8Encode_toList, utf8Encode_size one, h.length]

theorem stagedName_size (h : PlainKey key) : (stagedName key).utf8ByteSize = 68 := by
  rw [stagedName, String.utf8ByteSize_append, h.utf8ByteSize_eq]
  decide

theorem nul_not_mem (h : PlainKey key) : key.contains '\x00' = false := by
  rw [String.contains_char_eq, decide_eq_false_iff_not]
  exact h.not_mem (by decide)

theorem stagedName_nul (h : PlainKey key) : (stagedName key).contains '\x00' = false := by
  rw [String.contains_char_eq, decide_eq_false_iff_not, stagedName, String.toList_append,
    List.mem_append, not_or]
  exact ⟨h.not_mem (by decide), by decide⟩

/-- Whether an entry can be staged depends only on the length of the path. -/
theorem stagedName_nameable (h : PlainKey key) {root : Path}
    (hp : pathSize (root ++ [stagedName key]) ≤ pathLimit) : Nameable root (stagedName key) where
  nul := h.stagedName_nul
  short := by
    rw [h.stagedName_size]
    decide
  path := hp

/-- Where an entry can be staged it can be committed. -/
theorem nameable (h : PlainKey key) {root : Path} (hs : Nameable root (stagedName key)) :
    Nameable root key where
  nul := h.nul_not_mem
  short := by
    rw [h.utf8ByteSize_eq]
    decide
  path := by
    have hp := hs.path
    have hl : pathSize [stagedName key] = pathSize [key] + EntryPath.suffix.utf8ByteSize := by
      simp only [pathSize, List.foldr_cons, List.foldr_nil, stagedName, String.utf8ByteSize_append]
      omega
    rw [pathSize_append, hl] at hp
    rw [pathSize_append]
    omega

end PlainKey

end ImageCache
