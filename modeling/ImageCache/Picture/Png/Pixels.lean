import ImageCache.Picture.Flate.Inflate
import ImageCache.Picture.Png.Head

namespace ImageCache.Png

/-- Pixels at `left + i * across`, `top + j * down`. -/
structure Grid where
  left : Nat
  top : Nat
  across : Nat
  down : Nat

namespace Grid

/-- How many of `n` places lie on every `step`th from `start` on. -/
def count (n start step : Nat) : Nat := (n - start + (step - 1)) / step

def width (g : Grid) (size : Size) : Nat := count size.width.toNat g.left g.across

def height (g : Grid) (size : Size) : Nat := count size.height.toNat g.top g.down

def covers (g : Grid) (x y : Nat) : Bool :=
  g.left ≤ x && (x - g.left) % g.across == 0 && g.top ≤ y && (y - g.top) % g.down == 0

end Grid

/-- The grids of an image in the order in which they are stored. No two share a pixel. -/
def grids (interlaced : Bool) : List Grid :=
  if interlaced then
    [⟨0, 0, 8, 8⟩, ⟨4, 0, 8, 8⟩, ⟨0, 4, 4, 8⟩, ⟨2, 0, 4, 4⟩, ⟨0, 2, 2, 4⟩, ⟨1, 0, 2, 2⟩,
      ⟨0, 1, 1, 2⟩]
  else [⟨0, 0, 1, 1⟩]

namespace Header

def bitsPerPixel (h : Header) : Nat := h.color.samples * h.depth

def rowBytes (h : Header) (width : Nat) : Nat := (width * h.bitsPerPixel + 7) / 8

/-- How far back the byte is that a filter takes for the one of the pixel to the left. -/
def reach (h : Header) : Nat := max 1 (h.bitsPerPixel / 8)

end Header

/-- Of left, up and up-left the one nearest to left + up - up-left; earlier ones win. -/
def nearest (left up corner : Nat) : Nat :=
  let off (n : Nat) : Nat := ((left : Int) + up - corner - n).natAbs
  if off left ≤ off up && off left ≤ off corner then left
  else if off up ≤ off corner then up
  else corner

def prediction (filter : UInt8) (left up corner : Nat) : Option Nat :=
  match filter with
  | 0 => some 0
  | 1 => some left
  | 2 => some up
  | 3 => some ((left + up) / 2)
  | 4 => some (nearest left up corner)
  | _ => none

/-- Undoes a filter. Bytes to the left of a row and above the first row count as zero. -/
def unfiltered (reach : Nat) (filter : UInt8) (above row : ByteArray) : Option ByteArray :=
  Nat.foldM row.size (fun i _ out => do
    let before (b : ByteArray) : Nat := if reach ≤ i then (Binary.byteAt b (i - reach)).toNat else 0
    let guess ← prediction filter (before out) (Binary.byteAt above i).toNat (before above)
    return out.push (Binary.byteAt row i + guess.toUInt8)) ByteArray.empty

def readRows (reach width : Nat) (data : ByteArray) :
    (n : Nat) → (offset : Nat) → (rows : Array ByteArray) → Option (Array ByteArray × Nat)
  | 0, offset, rows => some (rows, offset)
  | n + 1, offset, rows => do
    let stop := offset + 1 + width
    guard (stop ≤ data.size)
    let above := rows.back?.getD ByteArray.empty
    let row ← unfiltered reach (Binary.byteAt data offset) above (data.extract (offset + 1) stop)
    readRows reach width data n stop (rows.push row)

/-- The rows of a grid. A grid without pixels has no rows at all. -/
def Header.rowsOf (h : Header) (g : Grid) : Nat :=
  if g.width h.size = 0 then 0 else g.height h.size

def Header.dataBytes (h : Header) : Nat :=
  (grids h.interlaced).foldl (fun n g => n + h.rowsOf g * (1 + h.rowBytes (g.width h.size))) 0

def readGrids (h : Header) (data : ByteArray) :
    List Grid → (offset : Nat) → Option (List (Grid × Array ByteArray))
  | [], _ => some []
  | g :: rest, offset => do
    let (rows, offset) ←
      readRows h.reach (h.rowBytes (g.width h.size)) data (h.rowsOf g) offset #[]
    return (g, rows) :: (← readGrids h data rest offset)

def Header.sample (h : Header) (row : ByteArray) (i : Nat) : Nat :=
  match h.depth with
  | 16 => Binary.highFirst row (2 * i) 2
  | 8 => (Binary.byteAt row i).toNat
  | depth =>
    let bit := i * depth
    (Binary.byteAt row (bit / 8)).toNat >>> (8 - depth - bit % 8) % (1 <<< depth)

namespace Head

/-- The samples are those of the transparent colour. Where samples have one byte only the low bytes
count; wide ones are compared as a whole, with all that was given. -/
def isClear (h : Head) (samples : List Nat) (given : ByteArray) : Bool :=
  if h.kind.wide then
    given.size == 2 * samples.length &&
      samples.zipIdx.all fun (n, i) => n == Binary.highFirst given (2 * i) 2
  else samples.zipIdx.all fun (n, i) => n == (Binary.byteAt given (2 * i + 1)).toNat

/-- Colour and opacity of a palette entry. Entries that are not given are black and opaque, and
opacities for more entries than there are count for none. -/
def paletteEntry (h : Head) (i : Nat) : List Nat :=
  let palette := h.palette.getD ByteArray.empty
  let color := if 3 * i + 3 ≤ palette.size then
      (List.range 3).map fun k => (Binary.byteAt palette (3 * i + k)).toNat
    else [0, 0, 0]
  match h.transparency with
  | none => color
  | some alpha =>
    let given := i < alpha.size && 3 * alpha.size ≤ palette.size
    color ++ [if given then (Binary.byteAt alpha i).toNat else 255]

/-- The samples of a pixel as the image has them, out of those in the file. -/
def spread (h : Head) (samples : List Nat) : List Nat :=
  match h.header.color with
  | .indexed => h.paletteEntry (samples.headD 0)
  | .greyAlpha | .rgba => samples
  | .grey | .rgb =>
    let color :=
      if h.header.depth < 8 then samples.map (· * 255 / (1 <<< h.header.depth - 1)) else samples
    match h.transparency with
    | none => color
    | some given => color ++ [if h.isClear samples given then 0 else h.kind.top]

def appendPixel (h : Head) (stored : List (Grid × Array ByteArray)) (x y : Nat) (out : ByteArray) :
    ByteArray :=
  match stored.find? fun (g, _) => g.covers x y with
  | none => out
  | some (g, rows) =>
    let row := rows.getD ((y - g.top) / g.down) ByteArray.empty
    let first := (x - g.left) / g.across * h.header.color.samples
    let samples := (List.range h.header.color.samples).map fun k => h.header.sample row (first + k)
    (h.spread samples).foldl (fun out n =>
      if h.kind.wide then (out.push n.toUInt8).push (n / 256).toUInt8 else out.push n.toUInt8) out

def samplesOf (h : Head) (stored : List (Grid × Array ByteArray)) : ByteArray :=
  Nat.fold h.header.size.height.toNat (fun y _ out =>
    Nat.fold h.header.size.width.toNat (fun x _ out => h.appendPixel stored x y out) out)
    ByteArray.empty

/-- The image in pieces of compressed data. An image whose colours are entries of a palette has
one. -/
def decode (h : Head) (pieces : List ByteArray) : Option Raster := do
  guard (h.header.color ≠ .indexed ∨ h.palette.isSome)
  let rows ← Flate.inflate pieces h.header.dataBytes
  let stored ← readGrids h.header rows (grids h.header.interlaced) 0
  return ⟨h.header.size, h.kind, some (h.samplesOf stored)⟩

end Head

end ImageCache.Png
