import ImageCache.Picture.Codec
import ImageCache.Proofs.Reading.Delivery
import ImageCache.Proofs.Sampling.Factor

namespace ImageCache

variable {σ : Type}

theorem Size.shrink_one (s : Size) : s.shrink 1 = s := by
  simp [shrink]

namespace Raster

@[simp]
theorem resize_size (filter : Filter) (size : Size) (r : Raster) :
    (r.resize filter size).size = size := by
  unfold resize
  split
  · next h => exact h.symm
  · rfl

/-- What is not below one is not raised to one. -/
theorem max_one {a : UInt32} (h : 1 ≤ a) : max a 1 = a := by
  change (if a ≤ 1 then 1 else a) = a
  split
  · next hle => exact UInt32.le_antisymm h hle
  · rfl

/-- An image is shrunk as its size is, as long as that keeps pixels. -/
theorem shrink_size (filter : Filter) (r : Raster) {factor : UInt32} (hfactor : 1 ≤ factor)
    (h : (r.size.shrink factor).isEmpty = false) :
    (r.shrink filter factor).size = r.size.shrink factor := by
  obtain ⟨hwidth, hheight⟩ := Size.isEmpty_eq_false.mp h
  have hwidth : max (r.size.width / factor) 1 = r.size.width / factor :=
    max_one (UInt32.le_iff_toNat_le.mpr hwidth)
  have hheight : max (r.size.height / factor) 1 = r.size.height / factor :=
    max_one (UInt32.le_iff_toNat_le.mpr hheight)
  simp only [shrink, max_one hfactor]
  split
  · next hone => rw [hone, Size.shrink_one]
  · rw [resize_size, hwidth, hheight, Size.shrink]

end Raster

namespace Sampling

theorem one_le_factor (origin target : Size) : 1 ≤ factor origin target := by
  obtain ⟨k, -, hfactor, -⟩ := factor_eq_two_pow origin target
  rw [UInt32.le_iff_toNat_le, hfactor]
  exact Nat.one_le_two_pow

/-- What is divided keeps pixels. -/
theorem factor_eq_one_or (origin target : Size) :
    factor origin target = 1 ∨ (origin.shrink (factor origin target)).isEmpty = false := by
  obtain ⟨k, -, hfactor, hample, -⟩ := factor_eq_two_pow origin target
  rcases Nat.eq_zero_or_pos k with rfl | hpos
  · exact .inl (UInt32.toNat_inj.mp hfactor)
  · obtain ⟨hcovers, ht⟩ := hample hpos
    exact .inr (((ample_iff_shrink hfactor).mp hcovers).isEmpty ht)

/-- What was divided once is not divided again. -/
theorem factor_shrink (origin target : Size) :
    factor (origin.shrink (factor origin target)) target = 1 := by
  obtain ⟨k, -, hfactor, -, hnext⟩ := factor_eq_two_pow origin target
  obtain ⟨j, -, hagain, hample, -⟩ :=
    factor_eq_two_pow (origin.shrink (factor origin target)) target
  rcases Nat.eq_zero_or_pos j with rfl | hpos
  · exact UInt32.toNat_inj.mp hagain
  · obtain ⟨hcovers, ht⟩ := hample hpos
    have hboth := (ample_shrink hfactor j).mp hcovers
    exact absurd (hboth.mono (.refl _) (.refl _) (Nat.add_le_add_left hpos k)) (hnext ht)

end Sampling

namespace Picture

/-- To decode a stream by a factor is to decode it in full and to shrink the image. -/
theorem run_decode (filter : Filter) (factor : UInt32) (r : Reader σ) (s : σ) :
    r.run ((codec filter).decode factor) s =
      ((r.run ((codec filter).decode 1) s).1.map (Raster.shrink filter factor),
        (r.run ((codec filter).decode 1) s).2) := by
  simp only [codec, decode, Reader.run_bind]
  cases (r.run Reading.toEnd s).1 with
  | error e => rfl
  | ok bytes =>
    dsimp only
    cases pictureIn bytes <;> rfl

/-- So it is for a file that can be read again. -/
theorem run_decodeSeekable (filter : Filter) (factor : UInt32) (r : SeekableReader σ) (s : σ) :
    r.run ((codec filter).decodeSeekable factor) s =
      ((r.run ((codec filter).decodeSeekable 1) s).1.map (Raster.shrink filter factor),
        (r.run ((codec filter).decodeSeekable 1) s).2) := by
  simp only [codec, SeekableReader.run, Dialogue.run_bind, Dialogue.run_pure]
  cases (Dialogue.run r.answer (recognised Grammar.readPicture) s).1 <;> rfl

end Picture

namespace DecodePlan

/-- An image of the origin's size that is shrunk by a plan has the size that the plan tells. -/
theorem shrunk_size (origin target : Size) (filter : Filter) {r : Raster} (h : r.size = origin) :
    (r.shrink filter (choose origin target).factor).size = (choose origin target).decodedSize := by
  subst h
  rcases Sampling.factor_eq_one_or r.size target with hone | hpixels
  · simp only [choose, decodedSize, hone, Size.shrink_one]
    rfl
  · exact r.shrink_size filter (Sampling.one_le_factor r.size target) hpixels

/-- An image of the origin's size that is shrunk by a plan has the size that the plan tells; so has
what the codec decodes by the plan from a stream or a file, if in full it decodes an image of the
origin's size. That size covers the target if the origin does, it is without pixels only if the
origin is, and a plan made anew from it leaves it as it is. -/
theorem plan_foretells (origin target : Size) :
    (∀ filter kind samples,
      (Raster.shrink filter (choose origin target).factor ⟨origin, kind, samples⟩).size =
        (choose origin target).decodedSize) ∧
    (∀ (σ : Type) filter (r : Reader σ) s full t,
      r.run ((Picture.codec filter).decode 1) s = (.ok full, t) → full.size = origin →
        ∃ shrunk, r.run ((Picture.codec filter).decode (choose origin target).factor) s =
          (.ok shrunk, t) ∧ shrunk.size = (choose origin target).decodedSize) ∧
    (∀ (σ : Type) filter (r : SeekableReader σ) s full t,
      r.run ((Picture.codec filter).decodeSeekable 1) s = (.ok full, t) → full.size = origin →
        ∃ shrunk, r.run ((Picture.codec filter).decodeSeekable (choose origin target).factor) s =
          (.ok shrunk, t) ∧ shrunk.size = (choose origin target).decodedSize) ∧
    (origin.Covers target → (choose origin target).decodedSize.Covers target) ∧
    ((choose origin target).decodedSize.isEmpty = true → origin.isEmpty = true) ∧
    (choose (choose origin target).decodedSize target).factor = 1 := by
  refine ⟨?_, ?_, ?_, Sampling.shrink_covers, ?_, Sampling.factor_shrink origin target⟩
  · intro filter kind samples
    exact shrunk_size origin target filter rfl
  · intro σ filter r s full t hfull hsize
    have hrun := Picture.run_decode filter (choose origin target).factor r s
    rw [hfull] at hrun
    exact ⟨_, hrun, shrunk_size origin target filter hsize⟩
  · intro σ filter r s full t hfull hsize
    have hrun := Picture.run_decodeSeekable filter (choose origin target).factor r s
    rw [hfull] at hrun
    exact ⟨_, hrun, shrunk_size origin target filter hsize⟩
  · intro hempty
    rcases Sampling.factor_eq_one_or origin target with hone | hpixels
    · simpa only [choose, decodedSize, hone, Size.shrink_one] using hempty
    · cases hempty.symm.trans hpixels

/-- Of more than a thousand columns and eight hundred rows every eighth is left for a hundred by a
hundred. -/
theorem every_eighth :
    (choose ⟨1001, 801⟩ ⟨100, 100⟩).factor = 8 ∧
      (∀ filter kind samples, (Raster.shrink filter 8 ⟨⟨1001, 801⟩, kind, samples⟩).size =
        ⟨125, 100⟩) ∧
      (Size.mk 125 100).Covers ⟨100, 100⟩ ∧ (choose ⟨125, 100⟩ ⟨100, 100⟩).factor = 1 := by
  have hfactor : (choose ⟨1001, 801⟩ ⟨100, 100⟩).factor = 8 := by decide +kernel
  have hsize : (choose ⟨1001, 801⟩ ⟨100, 100⟩).decodedSize = ⟨125, 100⟩ := by decide +kernel
  obtain ⟨hshrunk, -, -, hcovers, -, hagain⟩ := plan_foretells ⟨1001, 801⟩ ⟨100, 100⟩
  rw [hsize] at hcovers hagain
  rw [hfactor, hsize] at hshrunk
  exact ⟨hfactor, hshrunk, hcovers (by decide), hagain⟩

end DecodePlan

end ImageCache
