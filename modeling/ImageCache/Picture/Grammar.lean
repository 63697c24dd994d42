import ImageCache.Picture.Layout
import ImageCache.Picture.Raster
import ImageCache.Reading.Supply

namespace ImageCache

/-- How the images of one format are found in bytes: a head, which tells size and kind of the
pixels, and a body. -/
structure Grammar where
  Head : Type
  head : ByteArray → Except PictureFault Head
  size : Head → Size
  kind : Head → PixelKind
  /-- It takes all the bytes up to their end to know that this is the head. -/
  tookAll : Head → Bool
  body : Head → ByteArray → Except PictureFault Raster

namespace Grammar

/-- The bytes that the samples of an image may take. -/
def room : Nat := 512 * 1024 * 1024

variable (g : Grammar)

def fits (h : g.Head) : Bool := decide (Raster.byteCount (g.size h) (g.kind h) ≤ room)

def sizeIn (bytes : ByteArray) : Except PictureFault Size :=
  (g.head bytes).map g.size

def pictureIn (bytes : ByteArray) : Except PictureFault Raster :=
  match g.head bytes with
  | .error e => .error e
  | .ok h => if g.fits h then g.body h bytes else .error .tooLarge

/-- The head is found whatever follows the bytes. -/
def settles (bytes : ByteArray) : Bool :=
  match g.head bytes with
  | .ok h => !g.tookAll h
  | .error _ => false

/-- Decides by the bytes of a reader. One that fails behind all bytes that are needed does no
harm. -/
def read {α : Type} (f : ByteArray → Except PictureFault α) : Reading (Except PictureFault α) := do
  let supply ← Reading.supply
  return match supply.fault, f supply.bytes with
    | none, r => r
    | some e, .ok a => if g.settles supply.bytes then .ok a else .error (.unread e)
    | some e, .error .truncated => .error (.unread e)
    | some _, .error e => .error e

def readSize : Reading (Except PictureFault Size) := g.read g.sizeIn

def readPicture : Reading (Except PictureFault Raster) := g.read g.pictureIn

end Grammar

end ImageCache
