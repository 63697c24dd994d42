import ImageCache.Proofs.Words
import ImageCache.Sampling
import Mathlib.Algebra.Group.Nat.Defs

namespace ImageCache

def Size.Covers (s t : Size) : Prop := t.width ≤ s.width ∧ t.height ≤ s.height

instance Size.Covers.decidable (s t : Size) : Decidable (s.Covers t) :=
  inferInstanceAs (Decidable (t.width ≤ s.width ∧ t.height ≤ s.height))

theorem Size.Covers.refl (s : Size) : s.Covers s := ⟨UInt32.le_refl _, UInt32.le_refl _⟩

theorem Size.isEmpty_eq_false {s : Size} :
    s.isEmpty = false ↔ 0 < s.width.toNat ∧ 0 < s.height.toNat := by
  rw [isEmpty, Bool.or_eq_false_iff, beq_eq_false_iff_ne, beq_eq_false_iff_ne]
  simp only [ne_eq, ← UInt32.toNat_inj, UInt32.toNat_zero, Nat.pos_iff_ne_zero]

/-- What covers a size with pixels has pixels. -/
theorem Size.Covers.isEmpty {s t : Size} (h : s.Covers t) (ht : t.isEmpty = false) :
    s.isEmpty = false := by
  rw [Size.isEmpty_eq_false] at ht ⊢
  exact ⟨Nat.lt_of_lt_of_le ht.1 (UInt32.le_iff_toNat_le.mp h.1),
    Nat.lt_of_lt_of_le ht.2 (UInt32.le_iff_toNat_le.mp h.2)⟩

namespace Sampling

/-- `fits`, unless a product leaves its word. Both sides are worked out, also where the first one
tells that it does not fit. -/
def fits? (origin target : Size) (factor : UInt64) : Option Bool := do
  let width ← Word.times? target.width.toUInt64 factor
  let height ← Word.times? target.height.toUInt64 factor
  pure (width ≤ origin.width.toUInt64 && height ≤ origin.height.toUInt64)

def double? (good : UInt64 → Option Bool) : Nat → UInt64 → Option UInt64
  | 0, factor => some factor
  | n + 1, factor => do
    let doubled ← Word.times? factor 2
    if ← good doubled then double? good n doubled else pure factor

/-- `factor`, unless a number leaves its word on the way. -/
def factor? (origin target : Size) : Option UInt32 :=
  if origin.isEmpty || target.isEmpty then some 1
  else do Word.narrow? (← double? (fits? origin target) 31 1)

/-- A side divided by a power of two, rounded down, still has the wanted length. -/
def Spans (side wanted : UInt32) (k : Nat) : Prop := wanted.toNat ≤ side.toNat / 2 ^ k

def Ample (origin target : Size) (k : Nat) : Prop :=
  Spans origin.width target.width k ∧ Spans origin.height target.height k

section

variable {side wanted : UInt32} {k : Nat}

theorem spans_iff : Spans side wanted k ↔ wanted.toNat * 2 ^ k ≤ side.toNat :=
  Nat.le_div_iff_mul_le (Nat.two_pow_pos k)

/-- A power of two that has a bit in the word is the same number as a word. -/
theorem toNat_two_pow (h : k ≤ 63) : (UInt64.ofNat (2 ^ k)).toNat = 2 ^ k := by
  rw [UInt64.toNat_ofNat', Nat.mod_eq_of_lt (Nat.pow_lt_pow_right (by decide) (by omega))]

/-- The largest power at which doubling can end fits into half a word. -/
theorem two_pow_narrow (h : k ≤ 31) : (UInt64.ofNat (2 ^ k)).toNat < UInt32.size := by
  have hpow : 2 ^ k < 2 ^ 32 := Nat.pow_lt_pow_right (by decide) (by omega)
  rw [toNat_two_pow (by omega)]
  exact hpow

/-- A side of 32 bits times a factor of 33 bits has 65 at most, and the last one is not set. -/
theorem product_lt (wanted : UInt32) (hk : k ≤ 32) :
    wanted.toUInt64.toNat * (UInt64.ofNat (2 ^ k)).toNat < UInt64.size := by
  have hpow : 2 ^ k ≤ 2 ^ 32 := Nat.pow_le_pow_right (by decide) hk
  rw [toNat_two_pow (by omega), UInt32.toNat_toUInt64]
  calc wanted.toNat * 2 ^ k
      ≤ wanted.toNat * 2 ^ 32 := Nat.mul_le_mul_left _ hpow
    _ < 2 ^ 32 * 2 ^ 32 := Nat.mul_lt_mul_of_pos_right wanted.toNat_lt (by decide)

/-- To compare the product with a side is to divide the side and compare what is left. -/
theorem product_le_iff (hk : k ≤ 32) :
    wanted.toUInt64 * UInt64.ofNat (2 ^ k) ≤ side.toUInt64 ↔ Spans side wanted k := by
  rw [spans_iff, UInt64.le_iff_toNat_le, Word.toNat_mul (product_lt wanted hk),
    toNat_two_pow (by omega), UInt32.toNat_toUInt64, UInt32.toNat_toUInt64]

theorem Spans.mono {longer shorter : UInt32} {j : Nat} (h : Spans side wanted k)
    (hside : side ≤ longer) (hwanted : shorter ≤ wanted) (hjk : j ≤ k) :
    Spans longer shorter j := by
  have hpow : 2 ^ j ≤ 2 ^ k := Nat.pow_le_pow_right (by decide) hjk
  calc shorter.toNat
      ≤ wanted.toNat := UInt32.le_iff_toNat_le.mp hwanted
    _ ≤ side.toNat / 2 ^ k := h
    _ ≤ longer.toNat / 2 ^ j :=
      Nat.div_le_div (UInt32.le_iff_toNat_le.mp hside) hpow (Nat.ne_of_gt (Nat.two_pow_pos j))

/-- Nothing of a side is left when it is divided by as much as its word can tell apart. -/
theorem not_spans_of_pos (h : 0 < wanted.toNat) : ¬ Spans side wanted 32 := by
  have hnone : side.toNat / 2 ^ 32 = 0 := Nat.div_eq_of_lt side.toNat_lt
  rw [Spans, hnone]
  omega

end

variable {origin target : Size} {k : Nat}

/-- What covers a target when it is divided by a larger power covers a smaller target when it is
larger and divided by a smaller power. -/
theorem Ample.mono {larger smaller : Size} {j : Nat} (h : Ample origin target k)
    (origins : larger.Covers origin) (targets : target.Covers smaller) (hjk : j ≤ k) :
    Ample larger smaller j :=
  ⟨h.1.mono origins.1 targets.1 hjk, h.2.mono origins.2 targets.2 hjk⟩

theorem ample_zero : Ample origin target 0 ↔ origin.Covers target := by
  simp only [Ample, Spans, Nat.pow_zero, Nat.div_one, ← UInt32.le_iff_toNat_le, Size.Covers]

/-- To divide twice is to divide by the product. -/
theorem ample_shrink {f : UInt32} (hf : f.toNat = 2 ^ k) (j : Nat) :
    Ample (origin.shrink f) target j ↔ Ample origin target (k + j) := by
  simp only [Ample, Spans, Size.shrink, UInt32.toNat_div, hf, Nat.div_div_eq_div_mul, ← Nat.pow_add]

theorem ample_iff_shrink {f : UInt32} (hf : f.toNat = 2 ^ k) :
    Ample origin target k ↔ (origin.shrink f).Covers target := by
  rw [← ample_zero, ample_shrink hf, Nat.add_zero]

theorem Ample.covers (h : Ample origin target k) : origin.Covers target :=
  ample_zero.mp (h.mono (.refl _) (.refl _) (Nat.zero_le k))

theorem fits_iff (hk : k ≤ 32) :
    fits origin target (UInt64.ofNat (2 ^ k)) = true ↔ Ample origin target k := by
  simp only [fits, Bool.and_eq_true, decide_eq_true_eq, product_le_iff hk, Ample]

theorem fits?_eq (hk : k ≤ 32) :
    fits? origin target (UInt64.ofNat (2 ^ k)) =
      some (fits origin target (UInt64.ofNat (2 ^ k))) := by
  simp only [fits?, Word.times?_eq (product_lt _ hk), Option.bind_eq_bind, Option.bind_some]
  rfl

theorem doubled (k : Nat) : UInt64.ofNat (2 ^ k) * 2 = UInt64.ofNat (2 ^ (k + 1)) := by
  rw [Nat.pow_succ, UInt64.ofNat_mul]
  rfl

/-- Doubling ends at a power of two that is good unless it is the first, and the next is not, unless
all doublings were made. -/
theorem double_reach (good : UInt64 → Bool) (n k : Nat) :
    ∃ j, k ≤ j ∧ j ≤ k + n ∧ double good n (UInt64.ofNat (2 ^ k)) = UInt64.ofNat (2 ^ j) ∧
      (k < j → good (UInt64.ofNat (2 ^ j)) = true) ∧
      (j < k + n → good (UInt64.ofNat (2 ^ (j + 1))) = false) := by
  induction n generalizing k with
  | zero => exact ⟨k, Nat.le_refl k, Nat.le_refl k, rfl, by omega, by omega⟩
  | succ n ih =>
    rw [double, doubled]
    cases hgood : good (UInt64.ofNat (2 ^ (k + 1))) with
    | false => exact ⟨k, Nat.le_refl k, by omega, rfl, by omega, fun _ => hgood⟩
    | true =>
      obtain ⟨j, hkj, hjn, hdouble, hlast, hnext⟩ := ih (k + 1)
      refine ⟨j, by omega, by omega, hdouble, fun _ => ?_, fun hj => hnext (by omega)⟩
      rcases Nat.eq_or_lt_of_le hkj with rfl | hlt
      · exact hgood
      · exact hlast hlt

/-- Doubling breaks off nowhere, as long as the word has room for all doublings and no test of a
power breaks off. -/
theorem double?_eq {good? : UInt64 → Option Bool} {good : UInt64 → Bool} (n : Nat) {k : Nat}
    (hword : k + n ≤ 63)
    (hgood : ∀ i, i ≤ k + n → good? (UInt64.ofNat (2 ^ i)) = some (good (UInt64.ofNat (2 ^ i)))) :
    double? good? n (UInt64.ofNat (2 ^ k)) = some (double good n (UInt64.ofNat (2 ^ k))) := by
  induction n generalizing k with
  | zero => rfl
  | succ n ih =>
    have hfits : (UInt64.ofNat (2 ^ k)).toNat * (2 : UInt64).toNat < UInt64.size := by
      have hpow : 2 ^ (k + 1) < 2 ^ 64 := Nat.pow_lt_pow_right (by decide) (by omega)
      rw [toNat_two_pow (by omega)]
      exact hpow
    have hnext := hgood (k + 1) (by omega)
    rw [double?, double, Word.times?_eq hfits, doubled]
    simp only [Option.bind_eq_bind, Option.bind_some, hnext]
    split
    · exact ih (by omega) fun i hi => hgood i (by omega)
    · rfl

/-- Thirty-one doublings end at a power of two by which the origin covers the target, if it is not
one, and by the next power it does not, unless all doublings were made. -/
theorem double_fits (origin target : Size) :
    ∃ k ≤ 31, double (fits origin target) 31 1 = UInt64.ofNat (2 ^ k) ∧
      (0 < k → Ample origin target k) ∧ (k < 31 → ¬ Ample origin target (k + 1)) := by
  obtain ⟨k, -, hk, hdouble, hlast, hnext⟩ := double_reach (fits origin target) 31 0
  rw [show UInt64.ofNat (2 ^ 0) = 1 from rfl] at hdouble
  rw [Nat.zero_add] at hk hnext
  refine ⟨k, hk, hdouble, fun hpos => (fits_iff (by omega)).mp (hlast hpos), ?_⟩
  intro hlt hample
  have hfits := (fits_iff (by omega)).mpr hample
  rw [hnext hlt] at hfits
  cases hfits

theorem factor_of_isEmpty (h : (origin.isEmpty || target.isEmpty) = true) :
    factor origin target = 1 := by
  rw [factor, if_pos h]

/-- The factor is a power of two. If it is not one, the origin covers the target by it; by the next
power it does not, if there is anything to cover. -/
theorem factor_eq_two_pow (origin target : Size) :
    ∃ k ≤ 31, (factor origin target).toNat = 2 ^ k ∧
      (0 < k → Ample origin target k ∧ target.isEmpty = false) ∧
      (target.isEmpty = false → ¬ Ample origin target (k + 1)) := by
  cases hempty : origin.isEmpty || target.isEmpty with
  | true =>
    refine ⟨0, by decide, by rw [factor_of_isEmpty hempty]; rfl, by omega, ?_⟩
    intro ht hample
    rw [ht, Bool.or_false, hample.covers.isEmpty ht] at hempty
    cases hempty
  | false =>
    obtain ⟨-, ht⟩ := Bool.or_eq_false_iff.mp hempty
    obtain ⟨k, hk, hdouble, hlast, hnext⟩ := double_fits origin target
    refine ⟨k, hk, ?_, fun hpos => ⟨hlast hpos, ht⟩, fun _ => ?_⟩
    · rw [factor, hempty, if_neg Bool.false_ne_true, hdouble, UInt64.toNat_toUInt32,
        Nat.mod_eq_of_lt (two_pow_narrow hk), toNat_two_pow (by omega)]
    · rcases Nat.eq_or_lt_of_le hk with rfl | hlt
      · exact fun hample => not_spans_of_pos (Size.isEmpty_eq_false.mp ht).1 hample.1
      · exact hnext hlt

/-- No number leaves its word. -/
theorem factor?_eq (origin target : Size) :
    factor? origin target = some (factor origin target) := by
  obtain ⟨k, hk, hdouble, -⟩ := double_fits origin target
  have hdouble? : double? (fits? origin target) 31 (UInt64.ofNat (2 ^ 0)) =
      some (double (fits origin target) 31 (UInt64.ofNat (2 ^ 0))) :=
    double?_eq 31 (by decide) fun i hi => fits?_eq (by omega)
  rw [show UInt64.ofNat (2 ^ 0) = 1 from rfl] at hdouble?
  have hnarrow : (double (fits origin target) 31 1).toNat < UInt32.size := by
    rw [hdouble]
    exact two_pow_narrow hk
  rw [factor?, factor]
  split
  · rfl
  · rw [hdouble?, Option.bind_eq_bind, Option.bind_some, Word.narrow?_eq hnarrow]

/-- Each power of two by which the origin covers the target is no larger than the factor. -/
theorem le_factor_of_ample (ht : target.isEmpty = false) (h : Ample origin target k) :
    2 ^ k ≤ (factor origin target).toNat := by
  obtain ⟨j, -, hfactor, -, hnext⟩ := factor_eq_two_pow origin target
  rw [hfactor]
  refine Nat.pow_le_pow_right (by decide) (Nat.not_lt.mp fun hlt => hnext ht ?_)
  exact h.mono (.refl _) (.refl _) hlt

/-- Divided by the factor, the origin still covers a target that it covers. -/
theorem shrink_covers (h : origin.Covers target) :
    (origin.shrink (factor origin target)).Covers target := by
  obtain ⟨k, -, hfactor, hample, -⟩ := factor_eq_two_pow origin target
  apply (ample_iff_shrink hfactor).mp
  rcases Nat.eq_zero_or_pos k with rfl | hpos
  · exact ample_zero.mpr h
  · exact (hample hpos).1

/-- What does not cover the target is not divided. -/
theorem factor_of_not_covers (h : ¬ origin.Covers target) : factor origin target = 1 := by
  obtain ⟨k, -, hfactor, hample, -⟩ := factor_eq_two_pow origin target
  rcases Nat.eq_zero_or_pos k with rfl | hpos
  · exact UInt32.toNat_inj.mp hfactor
  · exact absurd (hample hpos).1.covers h

/-- A larger origin and a smaller target never make the factor smaller. -/
theorem factor_mono {larger smaller : Size} (origins : larger.Covers origin)
    (targets : target.Covers smaller) (hs : smaller.isEmpty = false) :
    factor origin target ≤ factor larger smaller := by
  obtain ⟨k, -, hfactor, hample, -⟩ := factor_eq_two_pow origin target
  rw [UInt32.le_iff_toNat_le, hfactor]
  rcases Nat.eq_zero_or_pos k with rfl | hpos
  · obtain ⟨j, -, hlarger, -⟩ := factor_eq_two_pow larger smaller
    rw [hlarger]
    exact Nat.pow_le_pow_right (by decide) (Nat.zero_le j)
  · exact le_factor_of_ample hs ((hample hpos).1.mono origins targets (Nat.le_refl k))

/-- For a target with pixels the factor is a power of two of 32 bits. By it an origin covers the
target that covers it as it is, and by no larger power of two, of whatever size; any other origin
is not divided. A larger origin or a smaller target never make the factor smaller, and no product
or doubling on the way to it leaves its word. -/
theorem factor_greatest (origin target : Size) (ht : target.isEmpty = false) :
    (∃ k ≤ 31, (factor origin target).toNat = 2 ^ k) ∧
    (origin.Covers target → (origin.shrink (factor origin target)).Covers target ∧
      ∀ k, (factor origin target).toNat < 2 ^ k →
        origin.width.toNat / 2 ^ k < target.width.toNat ∨
          origin.height.toNat / 2 ^ k < target.height.toNat) ∧
    (¬ origin.Covers target → factor origin target = 1) ∧
    (∀ larger smaller : Size, larger.Covers origin → target.Covers smaller →
      smaller.isEmpty = false → factor origin target ≤ factor larger smaller) ∧
    factor? origin target = some (factor origin target) := by
  refine ⟨?_, fun h => ⟨shrink_covers h, ?_⟩, factor_of_not_covers,
    fun larger smaller => factor_mono, factor?_eq origin target⟩
  · obtain ⟨k, hk, hfactor, -⟩ := factor_eq_two_pow origin target
    exact ⟨k, hk, hfactor⟩
  · intro k hlarger
    have hnot : ¬ Ample origin target k := fun hample =>
      Nat.not_lt.mpr (le_factor_of_ample ht hample) hlarger
    rcases Nat.lt_or_ge (origin.width.toNat / 2 ^ k) target.width.toNat with hwidth | hwidth
    · exact .inl hwidth
    · exact .inr (Nat.not_le.mp fun hheight => hnot ⟨hwidth, hheight⟩)

/-- The longest sides that there are and a target of two pixels. -/
theorem longest_sides :
    factor ⟨4294967295, 4294967295⟩ ⟨1, 2⟩ = 1073741824 ∧
      (Size.mk 4294967295 4294967295).Covers ⟨1, 2⟩ ∧ (Size.mk 3 3).Covers ⟨1, 2⟩ ∧
      ∀ k, 1073741824 < 2 ^ k → 4294967295 / 2 ^ k < 1 ∨ 4294967295 / 2 ^ k < 2 := by
  have hfactor : factor ⟨4294967295, 4294967295⟩ ⟨1, 2⟩ = 1073741824 := by decide +kernel
  have hcovers : (Size.mk 4294967295 4294967295).Covers ⟨1, 2⟩ := by decide
  obtain ⟨-, hcovered, -⟩ := factor_greatest ⟨4294967295, 4294967295⟩ ⟨1, 2⟩ (by decide)
  obtain ⟨hshrunk, hlarger⟩ := hcovered hcovers
  rw [hfactor] at hshrunk hlarger
  exact ⟨hfactor, hcovers, hshrunk, hlarger⟩

end Sampling

end ImageCache
