import ImageCache.Size

namespace ImageCache

inductive Channels where
  | grey
  | greyAlpha
  | rgb
  | rgba
deriving DecidableEq, Repr

namespace Channels

def count : Channels → Nat
  | grey => 1
  | greyAlpha => 2
  | rgb => 3
  | rgba => 4

end Channels

/-- A kind of pixel. Its samples take one byte each, or two if they are wide. -/
structure PixelKind where
  channels : Channels
  wide : Bool
deriving DecidableEq, Repr

namespace PixelKind

def sampleBytes (k : PixelKind) : Nat := if k.wide then 2 else 1

def bytes (k : PixelKind) : Nat := k.channels.count * k.sampleBytes

def top (k : PixelKind) : Nat := if k.wide then 65535 else 255

end PixelKind

/-- Samples are stored row by row, pixel by pixel, wide ones with the low byte first. An image whose
samples were not worked out has none. -/
structure Raster where
  size : Size
  kind : PixelKind
  samples : Option ByteArray

namespace Raster

def byteCount (size : Size) (kind : PixelKind) : Nat :=
  size.width.toNat * size.height.toNat * kind.bytes

def cost (r : Raster) : UInt64 := (byteCount r.size r.kind).toUInt64

def zeros (n : Nat) : ByteArray :=
  Nat.fold n (fun _ _ out => out.push 0) (ByteArray.emptyWithCapacity n)

def black (size : Size) : Raster :=
  let kind : PixelKind := ⟨.rgb, false⟩
  ⟨size, kind, some (zeros (byteCount size kind))⟩

end Raster

end ImageCache
