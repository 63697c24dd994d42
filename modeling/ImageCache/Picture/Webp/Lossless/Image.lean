import ImageCache.Picture.Webp.Lossless.Pixels
import ImageCache.Size

namespace ImageCache.Webp.Lossless

def readCache : Taking (Option Cache) := do
  if ← Taking.flag then
    let bits ← Taking.bits 4
    Taking.check (1 ≤ bits && bits ≤ 11)
    return some (Cache.empty bits)
  else return none

def cacheSize (cache : Option Cache) : Nat :=
  match cache with
  | some c => c.colors.size
  | none => 0

/-- The pixels of an image that goes with another one. It has one region. -/
def readSmall (width height : Nat) : Taking (Array Pixel) := do
  let cache ← readCache
  let group ← Group.read (cacheSize cache)
  let count := width * height
  return (← readPixels ⟨0, 0, #[], #[group]⟩ width count count ⟨#[], cache⟩).pixels

def squares (side bits : Nat) : Nat := (side + (1 <<< bits - 1)) >>> bits

/-- The groups of the regions of an image; a smaller image tells them by its red and green. -/
def readRegions (width height : Nat) : Taking (Nat × Nat × Array Nat) := do
  if ← Taking.flag then
    let bits := 2 + (← Taking.bits 3)
    let across := squares width bits
    let pixels ← readSmall across (squares height bits)
    return (bits, across, pixels.map fun p => p.toNat / 256 % 65536)
  else return (0, 0, #[])

def readMain (width height : Nat) : Taking Unit := do
  let cache ← readCache
  let (bits, across, numbers) ← readRegions width height
  let groups ← (List.range (numbers.foldl max 0 + 1)).mapM fun _ => Group.read (cacheSize cache)
  let count := width * height
  let _canvas ← readPixels ⟨bits, across, numbers, groups.toArray⟩ width count count ⟨#[], cache⟩

/-- How many pixels share one if there are so few colours, as a power of two. -/
def sharing (colors : Nat) : Nat :=
  if colors ≤ 2 then 3 else if colors ≤ 4 then 2 else if colors ≤ 16 then 1 else 0

/-- Reads transformations, each of four kinds at most once, `fuel` at most, and gives the width of
what was transformed. -/
def readTransforms (height : Nat) : (fuel : Nat) → (met : List Nat) → (width : Nat) → Taking Nat
  | 0, _, width => pure width
  | fuel + 1, met, width => do
    if ← Taking.flag then
      let kind ← Taking.bits 2
      Taking.check (!met.contains kind)
      let width ← match kind with
        | 2 => pure width
        | 3 =>
          let colors := 1 + (← Taking.bits 8)
          let _colors ← readSmall colors 1
          pure (squares width (sharing colors))
        | _ =>
          let bits := 2 + (← Taking.bits 3)
          let _parameters ← readSmall (squares width bits) (squares height bits)
          pure width
      readTransforms height fuel (kind :: met) width
    else return width

/-- Reads an image of which the size is known. Of five transformations one comes twice. -/
def readImage (size : Size) : Taking Unit := do
  readMain (← readTransforms size.height.toNat 5 [] size.width.toNat) size.height.toNat

def side : Taking Nat := return 1 + (← Taking.bits 14)

/-- Reads an image behind a signature byte, its sides, a bit for transparency and a version. -/
def readFile (size : Size) : Taking Unit := do
  let signature ← Taking.bits 8
  let width ← side
  let height ← side
  let _alpha ← Taking.bit
  let version ← Taking.bits 3
  Taking.check (signature == 0x2f && width == size.width.toNat && height == size.height.toNat &&
    version == 0)
  readImage size

def holds (read : Taking Unit) (bytes : ByteArray) : Bool :=
  match read ⟨bytes, 0⟩ with
  | .ok _ => true
  | .error _ => false

end ImageCache.Webp.Lossless
