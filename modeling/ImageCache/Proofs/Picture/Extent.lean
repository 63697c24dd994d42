import ImageCache.Proofs.Picture.Agreement
import Mathlib.Order.Bounds.Basic

namespace ImageCache

namespace BoundsPass

/-- Where a round can end, with enough bytes. -/
def IsBoundary (n : Nat) : Prop :=
  n ∈ [4096, 12288, 28672, 61440] ∨ ∃ j, n = 126976 + 65536 * j

/-- From the fifth round on every round asks for as much as a round can. -/
theorem reach_late (j : Nat) :
    chunk (j + 4) = largestChunk ∧ reach (j + 5) = 126976 + 65536 * j := by
  induction j with
  | zero => exact ⟨by decide, by decide⟩
  | succ j ih =>
    obtain ⟨hchunk, hreach⟩ := ih
    have hnext : chunk (j + 5) = largestChunk := by
      rw [chunk, hchunk]
      rfl
    have hend : reach (j + 6) = reach (j + 5) + chunk (j + 5) := rfl
    refine ⟨hnext, ?_⟩
    rw [hend, hreach, hnext, largestChunk]
    omega

theorem isBoundary_iff {n : Nat} : IsBoundary n ↔ ∃ k, n = reach (k + 1) := by
  constructor
  · intro h
    rcases h with early | ⟨j, rfl⟩
    · simp only [List.mem_cons, List.not_mem_nil, or_false] at early
      rcases early with rfl | rfl | rfl | rfl
      · exact ⟨0, rfl⟩
      · exact ⟨1, rfl⟩
      · exact ⟨2, rfl⟩
      · exact ⟨3, rfl⟩
    · exact ⟨j + 4, (reach_late j).2.symm⟩
  · intro h
    obtain ⟨k, rfl⟩ := h
    match k with
    | 0 => exact .inl (by decide)
    | 1 => exact .inl (by decide)
    | 2 => exact .inl (by decide)
    | 3 => exact .inl (by decide)
    | j + 4 => exact .inr ⟨j, (reach_late j).2⟩

end BoundsPass

open BoundsPass

namespace Picture

variable {bytes : ByteArray} {k n m : Nat} {result : Except PictureFault Size}

/-- So many bytes are enough to tell the size. -/
def Enough (bytes : ByteArray) (n : Nat) : Prop := ∃ size, sizeIn (bytes.extract 0 n) = .ok size

theorem not_enough_zero (bytes : ByteArray) : ¬ Enough bytes 0 := by
  intro h
  obtain ⟨size, hs⟩ := h
  have hnone : Format.recognise .empty = none := by decide +kernel
  rw [ByteArray.extract_same, sizeIn_unrecognised hnone] at hs
  cases hs

/-- Of most formats more bytes are enough, too. -/
theorem Enough.mono (h : Enough bytes n) (fields : Format.recognise bytes ≠ some .webp)
    (hnm : n ≤ m) : Enough bytes m := by
  obtain ⟨size, hs⟩ := h
  have settled : Settled (bytes.extract 0 m) :=
    settled_of_fields fun hw => fields (Format.recognise_of_extract hw)
  refine ⟨size, settled n size ?_⟩
  rw [extract_front bytes hnm]
  exact hs

/-- The pass does not go on behind a round that shows the size. -/
theorem le_of_enough (first : First headReader bytes k result) {i : Nat}
    (h : Enough bytes (reach (i + 1))) : k ≤ i := by
  refine Nat.not_lt.mp fun hi => ?_
  obtain ⟨size, hs⟩ := h
  obtain ⟨e, he⟩ := judged_none (first.before i hi)
  rw [headReader_size, hs] at he
  cases he

/-- A size that the pass comes to shows in what it has read. -/
theorem enough_of_first {size : Size} (first : First headReader bytes k (.ok size)) :
    Enough bytes (reach (k + 1)) := by
  rcases verdict_some first.comes with ⟨-, h⟩ | ⟨shown, -⟩
  · cases h
  · rw [headReader_size] at shown
    exact ⟨size, shown⟩

/-- If any round would show the size, the pass comes to one. -/
theorem found_of_enough (first : First headReader bytes k result) {i : Nat}
    (h : Enough bytes (reach (i + 1))) : ∃ size, result = .ok size := by
  have hle := le_of_enough first h
  obtain ⟨size, hs⟩ := h
  rcases verdict_some first.comes with ⟨unknown, -⟩ | ⟨shown, found | ended⟩
  · have known := recognised_of_sizeIn hs
    rw [← headReader_recognises, recognises_reach] at known
    rw [recognises_reach, known] at unknown
    cases unknown
  · exact found
  · -- Nothing came in the last round, so both rounds have read everything.
    have hk := Nat.le_trans ended (reach_mono (Nat.le_succ k))
    have hi := Nat.le_trans hk (reach_mono (Nat.add_le_add_right hle 1))
    rw [extract_whole hi] at hs
    rw [extract_whole hk, headReader_size, hs] at shown
    exact ⟨size, shown.symm⟩

section Taken

variable {σ : Type} {r : Reader σ} {has : σ → ByteArray → Nat → Prop} {s : σ} {head : Nat}

/-- Behind the end of a head the pass goes on to the end of the round, and no further. -/
theorem reach_of_head (first : First headReader bytes k result)
    (least : IsLeast {m | Enough bytes m} head)
    (lasting : ∀ m n, m ≤ n → Enough bytes m → Enough bytes n) :
    IsLeast {b | IsBoundary b ∧ head ≤ b} (reach (k + 1)) := by
  have enough : ∀ i, head ≤ reach (i + 1) → Enough bytes (reach (i + 1)) := fun i hi =>
    lasting head _ hi least.1
  have covered : head ≤ reach (head + 1) :=
    Nat.le_trans (le_reach head) (reach_mono (Nat.le_succ head))
  obtain ⟨size, rfl⟩ := found_of_enough first (enough head covered)
  refine ⟨⟨isBoundary_iff.mpr ⟨k, rfl⟩, least.2 (enough_of_first first)⟩, ?_⟩
  intro b hb
  obtain ⟨boundary, hle⟩ := hb
  obtain ⟨i, rfl⟩ := isBoundary_iff.mp boundary
  exact reach_mono (Nat.succ_le_succ (le_of_enough first (enough i hle)))

/-- With sixteen bytes that begin like no image there is nothing to go on for. -/
theorem verdict_unknown (unknown : Format.recognise bytes = none) (h : recognisable ≤ bytes.size)
    (k : Nat) : verdict headReader bytes k = some (.error .unsupported) := by
  have hknown := recognises_reach bytes k
  rw [unknown] at hknown
  have hsize : recognisable ≤ (bytes.extract 0 (reach (k + 1))).size := by
    have hreach := recognisable_le_reach k
    rw [ByteArray.size_extract]
    omega
  simp only [verdict, judged, hknown, hsize, decide_true, Bool.true_or, Option.isSome_none,
    Bool.not_false, Bool.and_true, if_true]
  rfl

/-- Of what begins like no image no more is taken than the first round asks for. -/
theorem extract_unknown (first : First headReader bytes k result)
    (unknown : Format.recognise bytes = none) :
    bytes.extract 0 (reach (k + 1)) = bytes.extract 0 firstChunk := by
  by_cases small : bytes.size ≤ firstChunk
  · rw [extract_whole small, extract_whole (Nat.le_trans small (firstChunk_le_reach k))]
  · have hsize : recognisable ≤ bytes.size := by
      unfold firstChunk at small
      unfold recognisable
      omega
    obtain rfl : k = 0 := Nat.le_zero.mp (first.le_of_comes (verdict_unknown unknown hsize 0))
    rfl

/-- What begins like an image and shows no size is read to its end. -/
theorem extract_sizeless (first : First headReader bytes k result)
    (known : Format.recognise bytes ≠ none) (sizeless : ∀ m, ¬ Enough bytes m) :
    bytes.extract 0 (reach (k + 1)) = bytes := by
  rcases verdict_some first.comes with ⟨unknown, -⟩ | ⟨shown, ⟨size, rfl⟩ | ended⟩
  · rw [recognises_reach, Option.isSome_eq_false_iff, Option.isNone_iff_eq_none] at unknown
    exact absurd unknown known
  · exact absurd ⟨size, shown⟩ (sizeless _)
  · exact extract_whole (Nat.le_trans ended (reach_mono (Nat.le_succ k)))

/-- However the bytes of a stream come, the pass for the size takes a front of them: up to the first
boundary at or behind the end of the head, if every front that is longer than the head shows the
size, too; up to the first boundary, if they begin like no image; and all of them, if they begin
like an image and no front shows a size. -/
theorem bounds_takes (filter : Filter) {bytes : ByteArray} (trickles : r.Trickles has)
    (hs : has s bytes n) :
    ∃ result left calls,
      r.recorded.run (codec filter).bounds (s, []) = (result, (left, calls)) ∧
      ((∀ m n, m ≤ n → Enough bytes m → Enough bytes n) →
        ∀ head, IsLeast {m | Enough bytes m} head →
          ∃ b, IsLeast {b | IsBoundary b ∧ head ≤ b} b ∧
            Intake.delivered calls = bytes.extract 0 (min bytes.size b)) ∧
      (Format.recognise bytes = none →
        Intake.delivered calls = bytes.extract 0 (min bytes.size 4096)) ∧
      (Format.recognise bytes ≠ none → (∀ m, ¬ Enough bytes m) →
        Intake.delivered calls = bytes) := by
  obtain ⟨k, result, first⟩ := exists_first headReader bytes
  obtain ⟨left, calls, hr, taken⟩ := first.taken trickles hs
  have within : ∀ b, bytes.extract 0 (min bytes.size b) = bytes.extract 0 b := by
    intro b
    rw [Nat.min_comm, extract_within bytes 0 b]
  refine ⟨result, left, calls, hr, ?_, ?_, ?_⟩
  · intro lasting head least
    exact ⟨_, reach_of_head first least lasting, by rw [within, taken]⟩
  · intro unknown
    rw [within, taken]
    exact extract_unknown first unknown
  · intro known sizeless
    rw [taken]
    exact extract_sizeless first known sizeless

end Taken

def paddedGif : ByteArray := smallGif ++ ⟨Array.replicate 5000 0⟩

theorem paddedGif_front {m : Nat} (h : m ≤ 15) :
    paddedGif.extract 0 m = smallGif.extract 0 m :=
  Layout.field_append h

theorem paddedGif_known : Format.recognise paddedGif = some .gif := by
  have hfront : Format.recognise (paddedGif.extract 0 15) = some .gif := by
    rw [paddedGif_front (Nat.le_refl 15)]
    decide +kernel
  exact Format.recognise_of_extract hfront

/-- No byte of the head can be spared. -/
theorem paddedGif_head : IsLeast {m | Enough paddedGif m} 15 := by
  have early : ∀ m < 15, (sizeIn (smallGif.extract 0 m)).isOk = false := by decide +kernel
  constructor
  · refine ⟨⟨2, 1⟩, ?_⟩
    rw [paddedGif_front (Nat.le_refl 15)]
    decide +kernel
  · intro m enough
    refine Nat.not_lt.mp fun hm => ?_
    obtain ⟨size, hs⟩ := enough
    have hearly := early m hm
    rw [← paddedGif_front (Nat.le_of_lt hm), hs] at hearly
    cases hearly

/-- The size needs fifteen bytes, and one round is taken of the many that there are. -/
theorem paddedGif_takes : paddedGif.size = 5015 ∧ IsLeast {m | Enough paddedGif m} 15 ∧
    ∃ result left calls,
      Rehearsal.Stream.reader.recorded.run (codec .triangle).bounds (faltering paddedGif, []) =
        (result, (left, calls)) ∧
      Intake.delivered calls = paddedGif.extract 0 4096 := by
  have hpadding : (ByteArray.mk (Array.replicate 5000 0)).size = 5000 := Array.size_replicate
  have hsize : paddedGif.size = 5015 := by
    rw [paddedGif, ByteArray.size_append, hpadding]
    rfl
  have lasting : ∀ m n, m ≤ n → Enough paddedGif m → Enough paddedGif n := fun m n hmn enough =>
    enough.mono (by rw [paddedGif_known]; nofun) hmn
  have boundary : IsLeast {b | IsBoundary b ∧ 15 ≤ b} 4096 := by
    refine ⟨⟨.inl (by decide), by decide⟩, ?_⟩
    intro b hb
    obtain ⟨k, rfl⟩ := isBoundary_iff.mp hb.1
    exact firstChunk_le_reach k
  obtain ⟨result, left, calls, hr, takes, -, -⟩ :=
    bounds_takes .triangle Rehearsal.Stream.trickles (faltering_falters paddedGif)
  obtain ⟨b, least, hcalls⟩ := takes lasting 15 paddedGif_head
  obtain rfl : b = 4096 := least.unique boundary
  rw [hsize, Nat.min_eq_right (by decide)] at hcalls
  exact ⟨hsize, paddedGif_head, result, left, calls, hr, hcalls⟩

end Picture

end ImageCache
