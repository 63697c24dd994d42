namespace ImageCache.Webp.Lossless

/-- Opacity, red, green and blue, each in eight bits. -/
abbrev Pixel := UInt32

/-- Places near a pixel, in steps to the left and up, the nearest first. -/
def nearPlaces : Array (Int × Int) := #[
  (0, 1), (1, 0), (1, 1), (-1, 1), (0, 2), (2, 0), (1, 2), (-1, 2), (2, 1), (-2, 1), (2, 2),
  (-2, 2), (0, 3), (3, 0), (1, 3), (-1, 3), (3, 1), (-3, 1), (2, 3), (-2, 3), (3, 2), (-3, 2),
  (0, 4), (4, 0), (1, 4), (-1, 4), (4, 1), (-4, 1), (3, 3), (-3, 3), (2, 4), (-2, 4), (4, 2),
  (-4, 2), (0, 5), (3, 4), (-3, 4), (4, 3), (-4, 3), (5, 0), (1, 5), (-1, 5), (5, 1), (-5, 1),
  (2, 5), (-2, 5), (5, 2), (-5, 2), (4, 4), (-4, 4), (3, 5), (-3, 5), (5, 3), (-5, 3), (0, 6),
  (6, 0), (1, 6), (-1, 6), (6, 1), (-6, 1), (2, 6), (-2, 6), (6, 2), (-6, 2), (4, 5), (-4, 5),
  (5, 4), (-5, 4), (3, 6), (-3, 6), (6, 3), (-6, 3), (0, 7), (7, 0), (1, 7), (-1, 7), (5, 5),
  (-5, 5), (7, 1), (-7, 1), (4, 6), (-4, 6), (6, 4), (-6, 4), (2, 7), (-2, 7), (7, 2), (-7, 2),
  (3, 7), (-3, 7), (7, 3), (-7, 3), (5, 6), (-5, 6), (6, 5), (-6, 5), (8, 0), (4, 7), (-4, 7),
  (7, 4), (-7, 4), (8, 1), (8, 2), (6, 6), (-6, 6), (8, 3), (5, 7), (-5, 7), (7, 5), (-7, 5),
  (8, 4), (6, 7), (-6, 7), (7, 6), (-7, 6), (8, 5), (7, 7), (-7, 7), (8, 6), (8, 7)]

/-- How many pixels back a number refers: first the near places, then plain distances. -/
def distance (width n : Nat) : Nat :=
  match nearPlaces[n - 1]? with
  | some (left, up) => (max 1 (left + up * width)).toNat
  | none => n - nearPlaces.size

/-- Colours by a number that is scattered from them. -/
structure Cache where
  bits : Nat
  colors : Array Pixel

namespace Cache

def empty (bits : Nat) : Cache := ⟨bits, Array.replicate (1 <<< bits) 0⟩

def insert (c : Cache) (p : Pixel) : Cache :=
  let place := (0x1e35a7bd * p).toNat >>> (32 - c.bits)
  { c with colors := c.colors.setIfInBounds place p }

def insertAll (c : Cache) (ps : Array Pixel) : Cache := ps.foldl insert c

end Cache

structure Canvas where
  pixels : Array Pixel
  cache : Option Cache

namespace Canvas

variable (c : Canvas)

def draw (p : Pixel) : Canvas := ⟨c.pixels.push p, c.cache.map (·.insert p)⟩

/-- Repeats `n` pixels from so many back, which may be pixels that are being added. A repetition of
the last pixel leaves the cache as it is. -/
def again : (back n : Nat) → Canvas → Canvas
  | back, n, ⟨pixels, cache⟩ =>
    let start := pixels.size
    let pixels := Nat.fold n (fun _ _ out => out.push (out.getD (out.size - back) 0)) pixels
    let added := pixels.extract start pixels.size
    ⟨pixels, if back = 1 then cache else cache.map (·.insertAll added)⟩

def recalled (place : Nat) : Option Canvas := do
  return { c with pixels := c.pixels.push (← (← c.cache).colors[place]?) }

end Canvas

end ImageCache.Webp.Lossless
