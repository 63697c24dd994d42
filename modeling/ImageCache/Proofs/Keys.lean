import ImageCache.Key
import Mathlib.Data.List.Basic
import Mathlib.Tactic.IntervalCases

namespace ImageCache

namespace Text.Hex

theorem value?_digit {n : UInt8} (h : n.toNat < 16) : value? (digit n) = some n := by
  obtain ⟨k, hk⟩ : ∃ k, n.toNat = k := ⟨_, rfl⟩
  have hn : n = UInt8.ofNat k := by rw [← hk, UInt8.ofNat_toNat]
  rw [hk] at h
  subst hn
  interval_cases k <;> decide

theorem high_lt (b : UInt8) : (b >>> 4).toNat < 16 := by
  have hb := b.toNat_lt
  simp [Nat.shiftRight_eq_div_pow]
  omega

theorem low_lt (b : UInt8) : (b &&& 15).toNat < 16 := by
  rw [UInt8.toNat_and]
  exact Nat.lt_succ_of_le Nat.and_le_right

/-- A byte is its two halves put together. -/
theorem halves (b : UInt8) : (b >>> 4) <<< 4 ||| (b &&& 15) = b := by
  have hlow : b.toNat &&& 15 = b.toNat % 2 ^ 4 := Nat.and_two_pow_sub_one_eq_mod b.toNat 4
  have hb := b.toNat_lt
  apply UInt8.toNat_inj.mp
  simp only [UInt8.toNat_or, UInt8.toNat_shiftLeft, UInt8.toNat_shiftRight, UInt8.toNat_and,
    UInt8.reduceToNat, Nat.reduceMod, hlow]
  have hhigh : b.toNat >>> 4 <<< 4 < 2 ^ 8 := by
    rw [Nat.shiftLeft_eq, Nat.shiftRight_eq_div_pow]
    omega
  rw [Nat.mod_eq_of_lt hhigh, ← Nat.shiftLeft_add_eq_or_of_lt (Nat.mod_lt _ (by decide)),
    Nat.shiftLeft_eq, Nat.shiftRight_eq_div_pow]
  omega

theorem decodeOnto_pairs (out : ByteArray) (bytes : List UInt8) :
    decodeOnto out (bytes.flatMap pair) = some (out ++ bytes.toByteArray) := by
  induction bytes generalizing out with
  | nil => simp [decodeOnto]
  | cons b rest ih =>
    have hstep : decodeOnto out (pair b ++ rest.flatMap pair) =
        decodeOnto (out.push b) (rest.flatMap pair) := by
      simp [pair, decodeOnto, value?_digit (high_lt b), value?_digit (low_lt b), halves b]
    rw [List.flatMap_cons, hstep, ih]
    apply congrArg some
    apply ByteArray.ext
    simp

/-- What is written in digits is read back. -/
theorem decode?_encode (bytes : List UInt8) : decode? (encode bytes) = some bytes.toByteArray := by
  rw [decode?, encode, String.toList_ofList, decodeOnto_pairs, ByteArray.empty_append]

theorem encode_inj {bytes other : List UInt8} : encode bytes = encode other ↔ bytes = other := by
  constructor
  · intro h
    have hd := congrArg decode? h
    rw [decode?_encode, decode?_encode, Option.some.injEq] at hd
    simpa using congrArg ByteArray.data hd
  · rintro rfl
    rfl

end Text.Hex

def Hash.Sha256.Collide (m m' : ByteArray) : Prop := m ≠ m' ∧ digest m = digest m'

namespace Size

theorem not_x_mem_digits (n : Nat) : 'x' ∉ Nat.toDigits 10 n := by
  intro h
  have hd := Nat.isDigit_of_mem_toDigits (by decide) (by decide) h
  exact absurd hd (by decide)

theorem toDigits_inj {m n : Nat} (h : Nat.toDigits 10 m = Nat.toDigits 10 n) : m = n := by
  have hv := congrArg (Nat.ofDigitChars 10 · 0) h
  simpa only [Nat.ofDigitChars_ten_toDigits] using hv

/-- Width and height can be read off the text of a size. -/
theorem text_inj {x y : Size} : x.text = y.text ↔ x = y := by
  constructor
  · intro h
    have hl := congrArg String.toList h
    simp only [text, Nat.toString_eq_ofList_toDigits, String.toList_append,
      String.toList_ofList, List.append_assoc] at hl
    -- No digit is an x, so that the first x of both texts is the one in the middle.
    obtain ⟨hw, -, hh⟩ := (List.append_cons_inj_of_notMem (not_x_mem_digits _)
      (not_x_mem_digits _)).mp hl
    cases x
    cases y
    simp only [Size.mk.injEq]
    exact ⟨UInt32.toNat_inj.mp (toDigits_inj hw), UInt32.toNat_inj.mp (toDigits_inj hh)⟩
  · rintro rfl
    rfl

end Size

namespace Key

/-- Eight bytes are enough to tell the length of the identity, as they are for every text that fits
into a memory with 64-bit addresses. -/
def Counted (identity : String) : Prop := (normalize identity).utf8ByteSize < 2 ^ 64

instance (identity : String) : Decidable (Counted identity) := inferInstanceAs (Decidable (_ < _))

/-- The byte at a place of the count, as a digit to the base 256. -/
theorem countBytes_get (n : UInt64) {i : Nat} (h : i < 8) :
    (countBytes n)[i]?.map UInt8.toNat = some (n.toNat / 256 ^ i % 256) := by
  rw [countBytes, List.getElem?_map, List.getElem?_range h, Option.map_some, Option.map_some]
  interval_cases i <;> simp [UInt64.toNat_shiftRight, Nat.shiftRight_eq_div_pow]

/-- A number with so many digits is determined by them. -/
theorem eq_of_digits {k m n : Nat} (hm : m < 256 ^ k) (hn : n < 256 ^ k)
    (h : ∀ i < k, m / 256 ^ i % 256 = n / 256 ^ i % 256) : m = n := by
  induction k generalizing m n with
  | zero => omega
  | succ k ih =>
    have hlow : m % 256 = n % 256 := by simpa using h 0 (Nat.succ_pos k)
    rw [Nat.pow_succ] at hm hn
    have hhigh : m / 256 = n / 256 := by
      refine ih (Nat.div_lt_of_lt_mul (by omega)) (Nat.div_lt_of_lt_mul (by omega)) ?_
      intro i hi
      have hd := h (i + 1) (Nat.succ_lt_succ hi)
      rwa [Nat.pow_succ', ← Nat.div_div_eq_div_mul, ← Nat.div_div_eq_div_mul] at hd
    omega

theorem countBytes_inj {m n : UInt64} (h : countBytes m = countBytes n) : m = n := by
  refine UInt64.toNat_inj.mp (eq_of_digits (k := 8) m.toNat_lt n.toNat_lt ?_)
  intro i hi
  have hget := congrArg (fun bytes : List UInt8 => bytes[i]?.map UInt8.toNat) h
  simpa only [countBytes_get _ hi, Option.some.injEq] using hget

theorem bytes_inj {s t : String} (h : s.toUTF8.data.toList = t.toUTF8.data.toList) : s = t := by
  apply String.toByteArray_inj.mp
  apply ByteArray.ext
  exact Array.toList_inj.mp h

theorem countBytes_length (n : UInt64) : (countBytes n).length = 8 := by
  simp [countBytes]

/-- The length in front tells where the identity ends, so that the text can be parted again. -/
theorem preimage_inj {a b : String} (ha : Counted a) (hb : Counted b) (s t : String) :
    preimage a s = preimage b t ↔ normalize a = normalize b ∧ s = t := by
  constructor
  · intro h
    have hdata := congrArg (fun bytes : ByteArray => bytes.data.toList) h
    simp only [preimage, ByteArray.data_append, Array.toList_append, List.append_assoc,
      List.data_toByteArray] at hdata
    obtain ⟨hcount, hrest⟩ := List.append_inj hdata (by simp [countBytes_length])
    have hsize : (normalize a).utf8ByteSize = (normalize b).utf8ByteSize := by
      have hn := congrArg UInt64.toNat (countBytes_inj hcount)
      simp only [Counted] at ha hb
      simp at hn
      omega
    obtain ⟨hid, htag⟩ := List.append_inj hrest hsize
    exact ⟨bytes_inj hid, bytes_inj htag⟩
  · rintro ⟨hid, rfl⟩
    rw [preimage, preimage, hid]

theorem diskKey_inj (a b s t : String) : diskKey a s = diskKey b t ↔
    Hash.Sha256.digest (preimage a s) = Hash.Sha256.digest (preimage b t) := by
  rw [diskKey, diskKey, Text.Hex.encode_inj, Vector.toList_inj]

/-- Keys tell identities and tags apart. What is hashed for two renditions is the same just for the
same identity, blanks around it left aside, and the same tag; so that one key for different
renditions is a collision of the hash. The key among the decoded images is the same for identities
that are hashed alike under one tag, which is to say under any, and the tag that a size is given
tells the size. -/
theorem keys_identify {a b : String} (ha : Counted a) (hb : Counted b) :
    (∀ s t, preimage a s = preimage b t ↔ normalize a = normalize b ∧ s = t) ∧
      (∀ s t, diskKey a s = diskKey b t ↔ (normalize a = normalize b ∧ s = t) ∨
        Hash.Sha256.Collide (preimage a s) (preimage b t)) ∧
      (identityKey a = identityKey b ↔ ∃ tag, preimage a tag = preimage b tag) ∧
      (identityKey a = identityKey b ↔ ∀ tag, preimage a tag = preimage b tag) ∧
      ∀ x y : Size, sizeTag x = sizeTag y → x = y := by
  have hashed := preimage_inj ha hb
  refine ⟨hashed, fun s t => ?_, ?_, ?_, fun x y => Size.text_inj.mp⟩
  · rw [diskKey_inj, ← hashed, Hash.Sha256.Collide]
    constructor
    · intro h
      by_cases he : preimage a s = preimage b t
      · exact .inl he
      · exact .inr ⟨he, h⟩
    · rintro (he | ⟨-, h⟩)
      · rw [he]
      · exact h
  · constructor
    · intro h
      exact ⟨"", (hashed "" "").mpr ⟨h, rfl⟩⟩
    · rintro ⟨tag, h⟩
      exact ((hashed tag tag).mp h).1
  · constructor
    · intro h tag
      exact (hashed tag tag).mpr ⟨h, rfl⟩
    · intro h
      exact ((hashed "" "").mp (h "")).1

/-- The split between identity and tag counts, and the blanks around the identity do not. -/
theorem split_tells_apart :
    Counted "\u3000é\n" ∧ Counted "éx" ∧ Counted "é" ∧
      preimage "\u3000é\n" "x1" ≠ preimage "éx" "1" ∧
      preimage "\u3000é\n" "x1" = preimage "é" "x1" := by
  have ha : Counted "\u3000é\n" := by decide
  have hb : Counted "éx" := by decide
  have hc : Counted "é" := by decide
  refine ⟨ha, hb, hc, ?_, ?_⟩
  · intro h
    exact absurd (((keys_identify ha hb).1 "x1" "1").mp h).2 (by decide)
  · exact ((keys_identify ha hc).1 "x1" "x1").mpr ⟨by decide, rfl⟩

end Key

end ImageCache
