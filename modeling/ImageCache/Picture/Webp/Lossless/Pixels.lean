import ImageCache.Picture.Webp.Lossless.Canvas
import ImageCache.Picture.Webp.Lossless.Symbols

namespace ImageCache.Webp.Lossless

/-- The codes of a region. The first has symbols for green, for lengths, and for places in the
cache. -/
structure Group where
  green : Symbols
  red : Symbols
  blue : Symbols
  opacity : Symbols
  distance : Symbols

def lengthSymbols : Nat := 24

def Group.read (cacheSize : Nat) : Taking Group := do
  return ⟨← Symbols.readCode (256 + lengthSymbols + cacheSize), ← Symbols.readCode 256,
    ← Symbols.readCode 256, ← Symbols.readCode 256, ← Symbols.readCode 40⟩

/-- A number of pixels, from its symbol: small ones stand for themselves, others for a range in
which further bits tell the place. -/
def amount (symbol : Nat) : Taking Nat := do
  if symbol < 4 then return symbol + 1
  else
    let more := (symbol - 2) / 2
    return (2 + symbol % 2) <<< more + (← Taking.bits more) + 1

structure Regions where
  /-- The logarithm of the sides of a region, if there is more than one. -/
  bits : Nat
  across : Nat
  numbers : Array Nat
  groups : Array Group

def Regions.group? (r : Regions) (x y : Nat) : Option Group :=
  r.groups[r.numbers.getD ((y >>> r.bits) * r.across + (x >>> r.bits)) 0]?

/-- Reads the pixels of an image of the given width up to `count`, `fuel` symbols at most. -/
def readPixels (r : Regions) (width count : Nat) : (fuel : Nat) → Canvas → Taking Canvas
  | 0, c => pure c
  | fuel + 1, c =>
    let i := c.pixels.size
    if count ≤ i then pure c
    else
      match r.group? (i % width) (i / width) with
      | none => Taking.wrong
      | some g => do
        let symbol ← g.green.read
        if symbol < 256 then
          let red ← g.red.read
          let blue ← g.blue.read
          let opacity ← g.opacity.read
          let pixel := ((opacity * 256 + red) * 256 + symbol) * 256 + blue
          readPixels r width count fuel (c.draw pixel.toUInt32)
        else if symbol < 256 + lengthSymbols then
          let n ← amount (symbol - 256)
          let back := distance width (← amount (← g.distance.read))
          Taking.check (decide (back ≤ i ∧ i + n ≤ count))
          readPixels r width count fuel (c.again back n)
        else
          match c.recalled (symbol - 256 - lengthSymbols) with
          | some c => readPixels r width count fuel c
          | none => Taking.wrong

end ImageCache.Webp.Lossless
