import ImageCache.Binary
import ImageCache.Size

namespace ImageCache.Png

inductive Color where
  | grey
  | rgb
  | indexed
  | greyAlpha
  | rgba
deriving DecidableEq

namespace Color

def ofCode : Nat → Option Color
  | 0 => some grey
  | 2 => some rgb
  | 3 => some indexed
  | 4 => some greyAlpha
  | 6 => some rgba
  | _ => none

/-- How many bits a sample may have. -/
def depths : Color → List Nat
  | grey => [1, 2, 4, 8, 16]
  | indexed => [1, 2, 4, 8]
  | rgb | greyAlpha | rgba => [8, 16]

def samples : Color → Nat
  | grey | indexed => 1
  | greyAlpha => 2
  | rgb => 3
  | rgba => 4

end Color

structure Header where
  size : Size
  depth : Nat
  color : Color
  interlaced : Bool

/-- Sides are not zero, colour and depth go together, and the only method of compression and the
only one of filtering are the first. -/
def Header.ofBytes (bytes : ByteArray) : Option Header := do
  guard (bytes.size = 13)
  let width := Binary.highFirst bytes 0 4
  let height := Binary.highFirst bytes 4 4
  guard (width ≠ 0 ∧ height ≠ 0)
  let depth := (Binary.byteAt bytes 8).toNat
  let color ← Color.ofCode (Binary.byteAt bytes 9).toNat
  guard (depth ∈ color.depths)
  guard (Binary.byteAt bytes 10 = 0 ∧ Binary.byteAt bytes 11 = 0)
  let interlace := Binary.byteAt bytes 12
  guard (interlace ≤ 1)
  return ⟨⟨width.toUInt32, height.toUInt32⟩, depth, color, interlace == 1⟩

end ImageCache.Png
