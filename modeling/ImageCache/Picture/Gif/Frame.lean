import ImageCache.Picture.Gif.Lzw
import ImageCache.Picture.Gif.Screen
import ImageCache.Picture.Raster

namespace ImageCache.Gif

structure Frame where
  left : Nat
  top : Nat
  size : Size
  palette : ByteArray
  interlaced : Bool

namespace Frame

def width (f : Frame) : Nat := f.size.width.toNat

def height (f : Frame) : Nat := f.size.height.toNat

def pixels (f : Frame) : Nat := f.width * f.height

/-- There are pixels to wait for. An interlaced frame without rows is complete at once, and one that
could be no more than empty is a fault. -/
def isSound (f : Frame) : Bool := f.pixels != 0 || (f.interlaced && f.height == 0)

/-- The rows of a frame of `n` rows in the order in which they are stored: every eighth, the eighths
between, the fourths between, and the others. -/
def rowOrder (interlaced : Bool) (n : Nat) : List Nat :=
  if interlaced then
    let rows := List.range n
    rows.filter (· % 8 == 0) ++ rows.filter (· % 8 == 4) ++ rows.filter (· % 4 == 2) ++
      rows.filter (· % 2 == 1)
  else List.range n

def storedRows (interlaced : Bool) (n : Nat) : Array Nat :=
  (rowOrder interlaced n).zipIdx.foldl (fun out (row, i) => out.setIfInBounds row i)
    (Array.replicate n 0)

/-- The four samples of a colour number. Those that the palette does not have are clear. -/
def color (f : Frame) (clear : Option UInt8) (n : UInt8) : List UInt8 :=
  let i := 3 * n.toNat
  if i + 3 ≤ f.palette.size then
    [Binary.byteAt f.palette i, Binary.byteAt f.palette (i + 1), Binary.byteAt f.palette (i + 2),
      if clear = some n then 0 else 255]
  else [0, 0, 0, 0]

/-- The screen with the frame on it, everything around it clear. -/
def onScreen (f : Frame) (s : Screen) (numbers : ByteArray) : Raster :=
  let stored := storedRows f.interlaced f.height
  let pixel (x y : Nat) : List UInt8 :=
    if f.left ≤ x ∧ x < f.left + f.width ∧ f.top ≤ y ∧ y < f.top + f.height then
      let row := stored.getD (y - f.top) 0
      f.color s.clear (Binary.byteAt numbers (row * f.width + (x - f.left)))
    else [0, 0, 0, 0]
  let samples := Nat.fold s.size.height.toNat (fun y _ out =>
    Nat.fold s.size.width.toNat (fun x _ out =>
      (pixel x y).foldl (fun out n => out.push n) out) out) ByteArray.empty
  ⟨s.size, ⟨.rgba, false⟩, some samples⟩

end Frame

structure Unpacking where
  frame : Frame
  data : Lzw
  numbers : ByteArray

namespace Unpacking

variable (u : Unpacking)

def isComplete : Bool := u.frame.pixels ≤ u.numbers.size

/-- Numbers asked for in a call: the rest of the frame, or of a row if the rows are not in order. -/
def room : Nat :=
  if u.frame.interlaced then u.frame.width - u.numbers.size % u.frame.width
  else u.frame.pixels - u.numbers.size

/-- Calls that get anything done are bounded by the bytes that they take and the numbers that they
give. -/
def callBound (input : ByteArray) : Nat := input.size + u.frame.pixels + 1

/-- Feeds the bytes of a part from an offset on, in `fuel` calls at most, until the frame is
complete. The rest of a part with which nothing gets done is dropped. -/
def feedFrom (input : ByteArray) : Nat → (offset : Nat) → Unpacking → Option Unpacking
  | 0, _, u => some u
  | fuel + 1, offset, u =>
    if u.isComplete || u.data.ended || input.size ≤ offset then some u
    else
      match u.data.advance (input.extract offset input.size) u.room with
      | none => none
      | some c =>
        let u := { u with data := c.state, numbers := u.numbers ++ c.output }
        if c.taken = 0 && c.output.isEmpty then some u
        else feedFrom input fuel (offset + c.taken) u

def feed (input : ByteArray) : Option Unpacking := u.feedFrom input (u.callBound input) 0

def drain : Nat → Unpacking → Option Unpacking
  | 0, u => some u
  | fuel + 1, u =>
    if u.isComplete || u.data.ended then some u
    else
      match u.data.advance ByteArray.empty u.room with
      | none => none
      | some c =>
        let u := { u with data := c.state, numbers := u.numbers ++ c.output }
        if c.output.isEmpty then some u else drain fuel u

def finish : Option Unpacking := drain (u.callBound ByteArray.empty) u

end Unpacking

end ImageCache.Gif
