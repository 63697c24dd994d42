import ImageCache.Proofs.DirectoryStore.AnyKey
import Mathlib.Data.List.Infix

namespace ImageCache

open EntryPath

/-- The 32 bytes of the hash can be read back from a key. -/
theorem decode?_diskKey (identity tag : String) :
    Text.Hex.decode? (Key.diskKey identity tag) =
      some ⟨(Hash.Sha256.digest (Key.preimage identity tag)).toArray⟩ := by
  rw [Key.diskKey, Text.Hex.decode?_encode]
  apply congrArg some
  apply ByteArray.ext
  rw [List.data_toByteArray]
  exact Array.toArray_toList

namespace PlainKey

variable {key other : String} {root : Path}

theorem resolve_eq_iff (h : PlainKey key) (ho : PlainKey other) :
    resolve root key = resolve root other ↔ key = other := by
  rw [h.resolve_eq, ho.resolve_eq]
  simp

/-- The entry of a plain key is not where any name is staged, nor on the way there. -/
theorem apart (h : PlainKey key) (root : Path) (other : String) :
    ¬ root ++ [key] <+: staging (root ++ [other]) := by
  rw [staging_eq, List.prefix_append_right_inj, List.cons_prefix_cons]
  intro hc
  exact h.ne_stagedName other hc.1

/-- A writer of a plain key stages beside the entry, right inside the root. -/
theorem stage_paths (h : PlainKey key) {s : DirectoryStore} {d : Disk} {w : StagedEntry}
    (hs : (s.stage key d).1 = .ok (some w)) :
    w.final = s.root ++ [key] ∧ w.staging = staging (s.root ++ [key]) := by
  obtain ⟨⟨reply, d'⟩, hrun⟩ : ∃ out, s.stage key d = out := ⟨_, rfl⟩
  rw [hrun] at hs
  subst hs
  cases s.stage_opening (h.resolve_eq s.root) hrun with
  | opened made free => exact ⟨rfl, rfl⟩

end PlainKey

theorem staging_eq_iff (root : Path) (key other : String) :
    staging (root ++ [key]) = staging (root ++ [other]) ↔ key = other := by
  rw [staging_eq, staging_eq]
  constructor
  · intro h
    exact stagedName_inj (by simpa using h)
  · rintro rfl
    rfl

/-- A hashed key has 64 hexadecimal digits, from which the 32 bytes of the hash can be read back. A
store accepts it, and the entry stands right inside the root under the name of the key; there is
where a writer commits to, and it stages at the staging path. Different keys have different entries
and are staged at different paths, and no entry stands where the same or another key is staged, or
on the way there. -/
theorem diskKey_safe (s : DirectoryStore) (identity tag identity' tag' : String) :
    let key := Key.diskKey identity tag
    let other := Key.diskKey identity' tag'
    key.toList.length = 64 ∧ key.toList ⊆ "0123456789abcdef".toList ∧
      Text.Hex.decode? key =
        some ⟨(Hash.Sha256.digest (Key.preimage identity tag) : Vector UInt8 32).toArray⟩ ∧
      resolve s.root key = .ok (s.root ++ [key]) ∧
      (∀ d w, (s.stage key d).1 = .ok (some w) →
        w.final = s.root ++ [key] ∧ w.staging = staging (s.root ++ [key])) ∧
      (resolve s.root key = resolve s.root other ↔ key = other) ∧
      (staging (s.root ++ [key]) = staging (s.root ++ [other]) ↔ key = other) ∧
      ¬ s.root ++ [key] <+: staging (s.root ++ [other]) := by
  intro key other
  have plain : PlainKey key := diskKey_plain identity tag
  have plain' : PlainKey other := diskKey_plain identity' tag'
  exact ⟨plain.length, plain.digits, decode?_diskKey identity tag, plain.resolve_eq s.root,
    fun _ _ => plain.stage_paths, plain.resolve_eq_iff plain', staging_eq_iff s.root key other,
    plain.apart s.root other⟩

def varCache : DirectoryStore := ⟨["var", "cache"], 1000, 600⟩

def varDisk : Disk := ⟨[(["var"], .dir), (["var", "cache"], .dir)], #[], 0⟩

/-- Opened for a hashed key, the store has a writer at the staging path of that key. -/
theorem var_cache_safe : ∃ w,
    (varCache.stage (Key.diskKey "a.png" "1x1") varDisk).1 = .ok (some w) ∧
      w.final = ["var", "cache", Key.diskKey "a.png" "1x1"] ∧
      ¬ w.final <+: staging ["var", "cache", Key.diskKey "a.png" "2x2"] := by
  have plain := diskKey_plain "a.png" "1x1"
  have dirs : ∀ q ∈ varCache.root.dropLast.inits, varDisk.node? q = some .dir := by decide
  have way : varDisk.Accessible varCache.root :=
    Disk.accessible_iff.mpr fun q hq => dirs q ((List.mem_inits _ _).mpr hq)
  have empty : EmptyRoot varCache.root varDisk :=
    ⟨Disk.find_ok_iff.mpr ⟨by decide, way, rfl⟩, by decide⟩
  have fits : Disk.pathSize (varCache.root ++ [stagedName (Key.diskKey "a.png" "1x1")]) ≤
      Disk.pathLimit := by
    rw [Disk.pathSize_append]
    simp only [Disk.pathSize, List.foldr_cons, List.foldr_nil, plain.stagedName_size]
    decide
  obtain ⟨d', hs, -⟩ := varCache.stage_free empty.shelf plain (plain.stagedName_nameable fits)
    fun _ => List.not_mem_nil
  obtain ⟨-, -, -, -, paths, -, -, apart⟩ := diskKey_safe varCache "a.png" "1x1" "a.png" "2x2"
  have hopened := congrArg Prod.fst hs
  obtain ⟨hfinal, -⟩ := paths _ _ hopened
  exact ⟨_, hopened, hfinal, apart⟩

end ImageCache
