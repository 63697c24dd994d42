import ImageCache.Binary
import ImageCache.Picture.Raster

namespace ImageCache

inductive Filter where
  | nearest
  | triangle
  | catmullRom
  | gaussian
  | lanczos3
deriving DecidableEq, Repr

/-- A filter whose weights are worked out: how far it reaches, and the weight at a distance. -/
structure Kernel where
  reach : Float32
  weight : Float32 → Float32

namespace Filter

/-- Only the two simplest filters are worked out. -/
def kernel : Filter → Option Kernel
  | nearest => some ⟨0, fun _ => 1⟩
  | triangle => some ⟨1, fun x => if x.abs < 1 then 1 - x.abs else 0⟩
  | catmullRom | gaussian | lanczos3 => none

end Filter

/-- The old samples that make a new one: their weights, from `first` on. -/
structure Blend where
  first : Nat
  weights : List Float32

namespace Blend

/-- The weights for the `i`th of `new` samples out of `old` ones, divided by their sum. -/
def weigh (k : Kernel) (old new i : Nat) : Blend :=
  let ratio := Float32.ofNat old / Float32.ofNat new
  let scale := if ratio < 1 then 1 else ratio
  let support := k.reach * scale
  let center := (Float32.ofNat i + 0.5) * ratio
  let first := min (center - support).floor.toUInt64.toNat (old - 1)
  let stop := max (first + 1) (min (center + support).ceil.toUInt64.toNat old)
  let middle := center - 0.5
  let weights := (List.range (stop - first)).map fun j =>
    k.weight ((Float32.ofNat (first + j) - middle) / scale)
  let sum := weights.foldl (· + ·) 0
  ⟨first, weights.map (· / sum)⟩

def mix (b : Blend) (sample : Nat → Float32) : Float32 :=
  (b.weights.zipIdx b.first).foldl (fun sum (w, i) => sum + sample i * w) 0

end Blend

namespace Raster

/-- The nearest sample within the range; a half goes away from zero. -/
def nearestSample (top : Nat) (x : Float32) : Nat :=
  (if x < 0 then 0 else if Float32.ofNat top < x then Float32.ofNat top else x).round.toUInt64.toNat

def resample (k : Kernel) (kind : PixelKind) (old new : Size) (samples : ByteArray) : ByteArray :=
  let channels := kind.channels.count
  let bytes := kind.sampleBytes
  let width := old.width.toNat
  let rows := new.height.toNat
  let columns := new.width.toNat
  let row := width * channels
  let stored (i : Nat) : Float32 := Float32.ofNat (Binary.lowFirst samples (bytes * i) bytes)
  let tall : Array Float32 := Nat.fold rows (fun y _ out =>
    let blend := Blend.weigh k old.height.toNat rows y
    Nat.fold row (fun x _ out => out.push (blend.mix fun i => stored (i * row + x))) out) #[]
  let blends := (List.range columns).map (Blend.weigh k width columns)
  Nat.fold rows (fun y _ out =>
    blends.foldl (fun out blend =>
      Nat.fold channels (fun c _ out =>
        let sum := blend.mix fun i => tall.getD (y * row + i * channels + c) 0
        let sample := nearestSample kind.top sum
        Nat.fold bytes (fun b _ out => out.push (sample >>> (8 * b)).toUInt8) out) out) out)
    ByteArray.empty

/-- The image in another size. Samples that cannot be worked out are given up. -/
def resize (filter : Filter) (size : Size) (r : Raster) : Raster :=
  if size = r.size then r
  else
    { r with
      size := size
      samples := do return resample (← filter.kernel) r.kind r.size size (← r.samples) }

/-- Both sides divided by the factor, but not below one pixel. A factor of zero counts as one. -/
def shrink (filter : Filter) (factor : UInt32) (r : Raster) : Raster :=
  let factor := max factor 1
  if factor = 1 then r
  else r.resize filter ⟨max (r.size.width / factor) 1, max (r.size.height / factor) 1⟩

end Raster

end ImageCache
