import ImageCache.Proofs.Picture.Heads
import ImageCache.Proofs.Picture.Rounds
import ImageCache.Proofs.Reading.Mirror
import ImageCache.Proofs.Reading.Script

namespace ImageCache.Picture

open BoundsPass

variable {σ : Type} {bytes : ByteArray} {k : Nat} {size : Size}

theorem recognised_of_sizeIn (h : sizeIn bytes = .ok size) :
    (Format.recognise bytes).isSome = true := by
  obtain ⟨f, -, -, hf, -⟩ := sizeIn_eq_ok_iff.mp h
  rw [hf]
  rfl

@[simp]
theorem headReader_recognises (bytes : ByteArray) :
    headReader.recognises bytes = (Format.recognise bytes).isSome := rfl

@[simp]
theorem headReader_size (bytes : ByteArray) : headReader.size bytes = sizeIn bytes := rfl

/-- A round begins like the whole. -/
theorem recognises_reach (bytes : ByteArray) (k : Nat) :
    headReader.recognises (bytes.extract 0 (reach (k + 1))) = (Format.recognise bytes).isSome := by
  rw [headReader_recognises, Format.recognise_extract bytes (recognisable_le_reach k)]

/-- The rounds come to what all the bytes show. -/
theorem sizeIn_of_first {result : Except PictureFault Size}
    (first : First headReader bytes k result) (settled : Settled bytes) :
    result = sizeIn bytes := by
  rcases verdict_some first.comes with ⟨unknown, rfl⟩ | ⟨shown, ⟨size, rfl⟩ | ended⟩
  · rw [recognises_reach, Option.isSome_eq_false_iff, Option.isNone_iff_eq_none] at unknown
    exact (sizeIn_unrecognised unknown).symm
  · rw [headReader_size] at shown
    exact (settled _ size shown).symm
  · rw [extract_whole (Nat.le_trans ended (reach_mono (Nat.le_succ k)))] at shown
    exact shown.symm

theorem grammarOf_extract (bytes : ByteArray) :
    grammarOf (bytes.extract 0 Format.signatureLength) = grammarOf bytes := by
  unfold grammarOf
  rw [Format.recognise_extract bytes (Nat.le_refl _)]

/-- A file that can be read again shows what all its bytes do. -/
theorem boundsSeekable_replays (filter : Filter) {file : SeekableReader σ}
    {holds : σ → ByteArray → Prop} {s : σ} (h : file.Replays bytes holds) (hs : holds s bytes) :
    (file.run (codec filter).boundsSeekable s).1 = sizeIn bytes := by
  obtain ⟨start, s₁, hr, hstart, hs₁⟩ :=
    h.drain .empty (some Format.signatureLength) hs
  obtain ⟨s₂, back, hs₂⟩ := h.rewind hs₁
  have hbytes : start.bytes = bytes.extract 0 Format.signatureLength :=
    hstart.trans ByteArray.empty_append
  change (file.run (recognised Grammar.readSize) s).1 = _
  unfold recognised SeekableReader.run
  rw [Dialogue.run_bind, show Dialogue.run file.answer _ s = _ from
    (file.run_seekable _ s).trans hr]
  dsimp only
  rw [Dialogue.run_bind, show Dialogue.run file.answer SeekReading.rewind s₁ = _ from back, hbytes,
    grammarOf_extract]
  dsimp only
  unfold sizeIn
  cases grammarOf bytes with
  | error e => rfl
  | ok g =>
    dsimp only
    rw [show Dialogue.run file.answer _ s₂ = _ from file.run_seekable g.readSize s₂,
      Grammar.readSize, Grammar.read, Reader.run_bind]
    have supply := h.trickles.supply ⟨hs₂, rfl⟩
    rw [supply]
    rfl

/-- However the bytes of a stream come, and however often it is interrupted, its size is the one
that is found in a file of these bytes, or both are refused for the same fault; and always the same
bytes are taken from the stream. This is so of all bytes of which no front shows a size that the
whole does not. -/
theorem bounds_agree (filter : Filter) {bytes : ByteArray} (settled : Settled bytes) :
    ∃ taken ≤ bytes.size, ∀ {σ τ : Type} {r : Reader σ} {has : σ → ByteArray → Nat → Prop}
      {file : SeekableReader τ} {holds : τ → ByteArray → Prop} {s : σ} {t : τ} {n : Nat},
      r.Trickles has → has s bytes n → file.Replays bytes holds → holds t bytes →
      ∃ left calls, r.recorded.run (codec filter).bounds (s, []) =
          ((file.run (codec filter).boundsSeekable t).1, (left, calls)) ∧
        Intake.delivered calls = bytes.extract 0 taken := by
  obtain ⟨k, result, first⟩ := exists_first headReader bytes
  refine ⟨min (reach (k + 1)) bytes.size, Nat.min_le_right _ _, ?_⟩
  intro σ τ r has file holds s t n trickles hs replays ht
  obtain ⟨left, calls, hr, hcalls⟩ := first.taken trickles hs
  refine ⟨left, calls, ?_, ?_⟩
  · rw [boundsSeekable_replays filter replays ht, ← sizeIn_of_first first settled]
    exact hr
  · exact hcalls.trans (extract_within bytes 0 _).symm

def smallGif : ByteArray :=
  ⟨#[71, 73, 70, 56, 57, 97, 2, 0, 1, 0, 0, 0, 0, 0x2c, 0]⟩

/-- A stream of these bytes that is interrupted twice and hands out one byte, then two. -/
def faltering (bytes : ByteArray) : Rehearsal.Stream :=
  { Rehearsal.Stream.ofBytes bytes with
    cues := [.fails (.reported .interrupted "again"), .atMost 1,
      .fails (.reported .interrupted "again"), .atMost 2] }

theorem faltering_falters (bytes : ByteArray) : (faltering bytes).Falters bytes 2 where
  wall := rfl
  cues := by simp [faltering, Rehearsal.Cue.isInterruption, Fault.isInterruption, Fault.kind]
  refrain := nofun
  interruptions := rfl
  ahead := ByteArray.extract_zero_size.symm

/-- A GIF that comes in pieces with interruptions and one that comes as a whole. -/
theorem smallGif_agrees : Settled smallGif ∧
    ∃ left calls left' calls',
      Rehearsal.Stream.reader.recorded.run (codec .triangle).bounds (faltering smallGif, []) =
        (.ok ⟨2, 1⟩, (left, calls)) ∧
      Rehearsal.Stream.reader.recorded.run (codec .triangle).bounds (.ofBytes smallGif, []) =
        (.ok ⟨2, 1⟩, (left', calls')) ∧
      ((SeekableReader.ofBytes smallGif).run (codec .triangle).boundsSeekable smallGif).1 =
        .ok ⟨2, 1⟩ ∧
      Intake.delivered calls = Intake.delivered calls' := by
  have hgif : Format.recognise smallGif = some .gif := by decide +kernel
  have settled : Settled smallGif := settled_of_fields (by rw [hgif]; nofun)
  have hsize : sizeIn smallGif = .ok ⟨2, 1⟩ := by decide +kernel
  have file : ((SeekableReader.ofBytes smallGif).run (codec .triangle).boundsSeekable smallGif).1 =
      .ok ⟨2, 1⟩ :=
    (boundsSeekable_replays .triangle (SeekableReader.ofBytes_replays smallGif) rfl).trans hsize
  have steady : (Rehearsal.Stream.ofBytes smallGif).Falters smallGif 0 :=
    ⟨rfl, nofun, nofun, rfl, ByteArray.extract_zero_size.symm⟩
  obtain ⟨taken, -, agree⟩ := bounds_agree .triangle settled
  obtain ⟨left, calls, hr, hcalls⟩ := agree Rehearsal.Stream.trickles (faltering_falters smallGif)
    (SeekableReader.ofBytes_replays smallGif) rfl
  obtain ⟨left', calls', hr', hcalls'⟩ := agree Rehearsal.Stream.trickles steady
    (SeekableReader.ofBytes_replays smallGif) rfl
  rw [file] at hr hr'
  exact ⟨settled, left, calls, left', calls', hr, hr', file, hcalls.trans hcalls'.symm⟩

end ImageCache.Picture
