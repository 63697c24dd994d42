import ImageCache.Proofs.Fetch.LookAhead
import ImageCache.Proofs.Picture.Extent
import ImageCache.Rehearsal.MapStore

namespace ImageCache

open BoundsPass

namespace Picture

/-- The pass comes to a size and takes more than the limit just if there is more, and the size shows
at the end of some round, but of none that lies within the limit. -/
theorem spills_iff (bytes : ByteArray) (limit : Nat) :
    (∃ k size, First headReader bytes k (.ok size) ∧
      limit < (bytes.extract 0 (reach (k + 1))).size) ↔
      limit < bytes.size ∧ (∀ k, reach k ≤ limit → ¬ Enough bytes (reach k)) ∧
        ∃ k, Enough bytes (reach k) := by
  constructor
  · intro h
    obtain ⟨k, size, first, hlimit⟩ := h
    rw [ByteArray.size_extract] at hlimit
    refine ⟨by omega, fun j hj enough => ?_, k + 1, enough_of_first first⟩
    cases j with
    | zero => exact not_enough_zero bytes enough
    | succ i =>
      have hreach := reach_mono (Nat.add_le_add_right (le_of_enough first enough) 1)
      omega
  · intro h
    obtain ⟨hsize, within, j, enough⟩ := h
    obtain ⟨k, result, first⟩ := exists_first headReader bytes
    obtain ⟨size, rfl⟩ : ∃ size, result = .ok size := by
      cases j with
      | zero => exact absurd enough (not_enough_zero bytes)
      | succ i => exact found_of_enough first enough
    refine ⟨k, size, first, ?_⟩
    have hreach : limit < reach (k + 1) :=
      Nat.not_le.mp fun hle => within (k + 1) hle (enough_of_first first)
    rw [ByteArray.size_extract]
    omega

end Picture

section Streaming

open Picture

variable {W R Wr S : Type} {f : Fetcher W R Wr S Raster PictureFault} {filter : Filter}
  {flow : S × W → ByteArray → Nat → Prop} {r : Request} {w w₁ w₂ : W} {stream : S}
  {payload : ByteArray} {n : Nat}

/-- Streaming a picture looks too far ahead just if the pass comes to its size in a round that ends
behind the limit. -/
theorem picture_exceeds_iff (codec : f.codec = Picture.codec filter)
    (told : f.observer.onEvent r (.downloading r.remoteUrl) w = ((), w₁))
    (opens : f.source.openStream r.remoteUrl w₁ = (.ok (some stream), w₂))
    (trickles : f.source.stream.Trickles flow) (pours : flow (stream, w₂) payload n) :
    (∃ limit, (f.fetchStreaming r w).1.1 = .error (.lookAheadExceeded limit)) ↔
      ∃ k size, First headReader payload k (.ok size) ∧
        f.settings.lookAhead < (payload.extract 0 (reach (k + 1))).size := by
  obtain ⟨k, result, first⟩ := exists_first headReader payload
  obtain ⟨left, calls, hr, taken⟩ := first.taken trickles pours
  replace hr : f.source.stream.recorded.run f.codec.bounds ((stream, w₂), []) =
      (result, (left, calls)) := by
    rw [codec]
    exact hr
  constructor
  · intro h
    obtain ⟨limit, h⟩ := h
    obtain ⟨rfl, origin, calls', left', sized, spills⟩ := (f.exceeds_iff r w limit).mp h
    obtain ⟨rfl, hleft⟩ := Prod.mk.inj (hr.symm.trans (sized.pass told opens))
    obtain ⟨rfl, rfl⟩ := Prod.mk.inj hleft
    rw [taken] at spills
    exact ⟨k, origin, first, spills⟩
  · intro h
    obtain ⟨i, size, found, spills⟩ := h
    obtain ⟨rfl, rfl⟩ := first.unique found
    rw [← taken] at spills
    exact ⟨_, (f.exceeds_iff r w _).mpr
      ⟨rfl, size, calls, left, ⟨w₁, w₂, stream, told, opens, hr⟩, spills⟩⟩

/-- Streaming a picture fails for having looked too far ahead just if the picture has more bytes
than the limit and its size shows at the end of some round of the pass, but of none that lies within
the limit. So a head that ends within the limit is refused, too, if the round in which it ends does
not. -/
theorem head_refused_iff (codec : f.codec = Picture.codec filter)
    (told : f.observer.onEvent r (.downloading r.remoteUrl) w = ((), w₁))
    (opens : f.source.openStream r.remoteUrl w₁ = (.ok (some stream), w₂))
    (trickles : f.source.stream.Trickles flow) (pours : flow (stream, w₂) payload n) :
    (∃ limit, (f.fetchStreaming r w).1.1 = .error (.lookAheadExceeded limit)) ↔
      f.settings.lookAhead < payload.size ∧
        (∀ k, reach k ≤ f.settings.lookAhead → ¬ Enough payload (reach k)) ∧
        ∃ k, Enough payload (reach k) := by
  rw [picture_exceeds_iff codec told opens trickles pours]
  exact spills_iff payload f.settings.lookAhead

end Streaming

namespace Rehearsal

def pictured (limit : Nat) :
    Fetcher (World MapStore Raster) MapEntry MapWriter Stream Raster PictureFault where
  settings := ⟨true, limit⟩
  store := MapStore.byteStore World.tierPart
  source := World.source
  codec := Picture.codec Picture.defaultFilter
  memory := World.memoryTier Raster.cost
  observer := World.recorder
  notice := World.note

/-- A GIF of one pixel, 35 bytes in all. Its head ends with the byte behind the mark of the frame,
which is the 21st. -/
def dot : ByteArray :=
  ⟨#[71, 73, 70, 56, 57, 97, 1, 0, 1, 0, 0x80, 0, 0, 0xff, 0xff, 0xff, 0, 0, 0, 0x2c, 0, 0, 0, 0, 1,
    0, 1, 0, 0, 2, 2, 0x44, 1, 0, 0x3b]⟩

def dotStreamed : World MapStore Raster :=
  (World.start MapStore.empty ⟨0, 0⟩).serve "tile" ⟨none, none, some (.ofBytes dot)⟩

theorem dot_falters : (Stream.ofBytes dot).Falters dot 0 :=
  ⟨rfl, nofun, nofun, rfl, ByteArray.extract_zero_size.symm⟩

/-- The size shows in the head. -/
theorem dot_head_enough : Picture.Enough dot 21 := ⟨⟨1, 1⟩, by decide +kernel⟩

end Rehearsal

open Rehearsal Picture in
/-- A window for the whole picture is wide enough. -/
theorem dot_streamed : Enough dot 21 ∧
    ¬ ∃ limit, ((pictured 35).fetchStreaming thumbnail dotStreamed).1.1 =
      .error (.lookAheadExceeded limit) := by
  refine ⟨dot_head_enough, fun refused => ?_⟩
  obtain ⟨small, -⟩ := (head_refused_iff rfl rfl rfl Stream.source_trickles dot_falters).mp refused
  exact absurd small (Nat.lt_irrefl 35)

open Rehearsal Picture in
/-- The head of 21 bytes ends within a window of 32, and yet it is refused as too long for it. -/
theorem fitting_head_refused : Enough dot 21 ∧ 21 ≤ (pictured 32).settings.lookAhead ∧
    ∃ limit, ((pictured 32).fetchStreaming thumbnail dotStreamed).1.1 =
      .error (.lookAheadExceeded limit) := by
  refine ⟨dot_head_enough, by decide, ?_⟩
  refine (picture_exceeds_iff rfl rfl rfl Stream.source_trickles dot_falters).mpr ?_
  refine (spills_iff dot 32).mpr ⟨by decide, fun k hk => ?_, 1, ⟨1, 1⟩, ?_⟩
  · cases k with
    | zero => exact not_enough_zero dot
    | succ k => exact absurd (Nat.le_trans (firstChunk_le_reach k) hk) (by decide)
  · rw [extract_whole (Nat.le_trans (by decide) (firstChunk_le_reach 0))]
    decide +kernel

end ImageCache
