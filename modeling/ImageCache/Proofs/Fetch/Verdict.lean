import ImageCache.Fetch.Fetcher
import ImageCache.Proofs.Reading.Mirror
import ImageCache.Rehearsal.TileCodec

namespace ImageCache

variable {I E α σ : Type}

/-- The size of byte strings, and the image at each factor, or why there is none. -/
structure Judgement (I E : Type) where
  size : ByteArray → Except E Size
  image : UInt32 → ByteArray → Except E I

/-- What two passes over the same bytes come to: one for the size, one for the image at the factor
that the size calls for. -/
def Judgement.verdict (j : Judgement I E) (target : Size) (bytes : ByteArray) :
    Except E (I × DecodePlan) := do
  let plan := DecodePlan.choose (← j.size bytes) target
  return (← j.image plan.factor bytes, plan)

def Judgement.record (j : Judgement I E) (bytes : ByteArray) (r : Request) : Request :=
  match j.size bytes with
  | .ok origin => r.recordOrigin origin
  | .error _ => r

namespace Judgement

variable {j : Judgement I E} {bytes : ByteArray} {origin target : Size} {e : E} {image : I}

theorem verdict_noSize (h : j.size bytes = .error e) : j.verdict target bytes = .error e := by
  rw [verdict, h]
  rfl

theorem verdict_noImage (h : j.size bytes = .ok origin)
    (hi : j.image (DecodePlan.choose origin target).factor bytes = .error e) :
    j.verdict target bytes = .error e := by
  simp only [verdict, h, bind, Except.bind, hi]

theorem verdict_image (h : j.size bytes = .ok origin)
    (hi : j.image (DecodePlan.choose origin target).factor bytes = .ok image) :
    j.verdict target bytes = .ok (image, DecodePlan.choose origin target) := by
  simp only [verdict, h, bind, Except.bind, hi]
  rfl

theorem record_noSize (h : j.size bytes = .error e) (r : Request) : j.record bytes r = r := by
  rw [record, h]

theorem record_size (h : j.size bytes = .ok origin) (r : Request) :
    j.record bytes r = r.recordOrigin origin := by
  rw [record, h]

end Judgement

namespace Codec

/-- On every stream of some bytes, however they come, the codec finds what the judgement says. -/
structure Streams (c : Codec I E) (j : Judgement I E) : Prop where
  bounds : ∀ {σ : Type} {r : Reader σ} {has : σ → ByteArray → Prop} {s : σ} {bytes : ByteArray},
    r.Delivers has → has s bytes → (r.run c.bounds s).1 = j.size bytes
  decode : ∀ {σ : Type} {r : Reader σ} {has : σ → ByteArray → Prop} {s : σ} {bytes : ByteArray}
    (factor : UInt32), r.Delivers has → has s bytes →
      (r.run (c.decode factor) s).1 = j.image factor bytes

structure Seeks (c : Codec I E) (j : Judgement I E) : Prop where
  bounds : ∀ {σ : Type} {r : SeekableReader σ} {whole : ByteArray} {has : σ → ByteArray → Prop}
    {s : σ}, r.Replays whole has → has s whole → (r.run c.boundsSeekable s).1 = j.size whole
  decode : ∀ {σ : Type} {r : SeekableReader σ} {whole : ByteArray} {has : σ → ByteArray → Prop}
    {s : σ} (factor : UInt32), r.Replays whole has → has s whole →
      (r.run (c.decodeSeekable factor) s).1 = j.image factor whole

/-- What the codec finds in bytes at hand that it reads through a buffer. -/
def judgement (c : Codec I E) : Judgement I E where
  size bytes :=
    ((Buffered.reader (.ofBytes bytes)).run c.boundsSeekable (Buffered.start bytes)).1
  image factor bytes :=
    ((Buffered.reader (.ofBytes bytes)).run (c.decodeSeekable factor) (Buffered.start bytes)).1

theorem Streams.sequential {bounds : Reading (Except E Size)}
    {decode : UInt32 → Reading (Except E I)} {j : Judgement I E}
    (h : (Codec.sequential bounds decode).Streams j) :
    (Codec.sequential bounds decode).Seeks j where
  bounds {_ r _ _ s} replays hs :=
    (congrArg (·.1) (r.run_seekable bounds s)).trans (h.bounds replays.toDelivers hs)
  decode {_ r _ _ s} factor replays hs :=
    (congrArg (·.1) (r.run_seekable (decode factor) s)).trans
      (h.decode factor replays.toDelivers hs)

end Codec

namespace Rehearsal.Tile

def judgement : Judgement Tile Fault where
  size := sizeOf
  image factor bytes := do
    let small := (← sizeOf bytes).shrink factor
    let rest := bytes.extract 12 bytes.size
    return ⟨small.width, small.height, factor, rest.size, checksumOf rest⟩
where
  sizeOf (bytes : ByteArray) : Except Fault Size :=
    if 12 ≤ bytes.size then
      if Binary.spells (bytes.extract 0 12) 0 "TIMG" then
        .ok ⟨word (bytes.extract 0 12) 4, word (bytes.extract 0 12) 8⟩
      else .error (.reported .invalidData "bad magic")
    else .error .shortRead

variable {r : Reader σ} {has : σ → ByteArray → Prop} {s : σ} {bytes : ByteArray}

theorem bounds_delivered (h : r.Delivers has) (hs : has s bytes) :
    ∃ s', r.run bounds s = (judgement.size bytes, s') ∧ has s' (bytes.extract 12 bytes.size) := by
  obtain ⟨s', hr, hs'⟩ := h.exactly 12 hs
  refine ⟨s', ?_, hs'⟩
  rw [bounds, Reader.run_bind, hr, show judgement.size bytes = judgement.sizeOf bytes from rfl,
    judgement.sizeOf]
  by_cases hn : 12 ≤ bytes.size
  · rw [if_pos hn, if_pos hn]
    dsimp only
    split <;> rfl
  · rw [if_neg hn, if_neg hn]
    rfl

theorem codec_streams : codec.Streams judgement where
  bounds h hs := by
    obtain ⟨s', hr, -⟩ := bounds_delivered h hs
    exact congrArg (·.1) hr
  decode {_ r has s bytes} factor h hs := by
    obtain ⟨s', hr, hs'⟩ := bounds_delivered h hs
    obtain ⟨s'', hend, -⟩ := h.toEnd hs'
    change (r.run (decode factor) s).1 = _
    have hi : judgement.image factor bytes = (judgement.size bytes).bind fun size =>
        .ok ⟨(size.shrink factor).width, (size.shrink factor).height, factor,
          (bytes.extract 12 bytes.size).size, checksumOf (bytes.extract 12 bytes.size)⟩ := rfl
    rw [decode, Reader.run_bind, hr, hi]
    cases judgement.size bytes with
    | error e => rfl
    | ok size =>
      dsimp only
      rw [Reader.run_bind, hend]
      rfl

theorem codec_seeks : codec.Seeks judgement := codec_streams.sequential

end Rehearsal.Tile

end ImageCache
