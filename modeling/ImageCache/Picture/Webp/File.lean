import ImageCache.Picture.Grammar
import ImageCache.Picture.Webp.Container
import ImageCache.Picture.Webp.Lossless.Image

namespace ImageCache.Webp

/-- Opacities for an image of this size, either as they are or as a lossless image. -/
def alphaIsSound (size : Size) (bytes : ByteArray) : Bool :=
  let info := Binary.byteAt bytes 0
  let rest := bytes.extract 1 bytes.size
  bytes.size != 0 && info >>> 4 &&& 3 ≤ 1 &&
    match info &&& 3 with
    | 0 => size.width.toNat * size.height.toNat ≤ rest.size
    | 1 => Lossless.holds (Lossless.readImage size) rest
    | _ => false

def losslessIsSound (size : Size) (bytes : ByteArray) : Bool :=
  Lossless.holds (Lossless.readFile size) bytes

def lossyIsSound (size : Size) (bytes : ByteArray) : Bool :=
  Lossy.soundSize bytes == some size

/-- A lossless image counts before a lossy one, which needs opacities if the file has any. -/
def stillIsSound (h : Head) (bytes : ByteArray) : Bool :=
  match h.chunk? .lossless, h.chunk? .lossy with
  | some c, _ => losslessIsSound h.size (c.bytes bytes)
  | none, some c =>
    lossyIsSound h.size (c.bytes bytes) &&
      (!h.alpha ||
        match h.chunk? .alpha with
        | some alpha => alphaIsSound h.size (alpha.bytes bytes)
        | none => false)
  | none, none => false

structure Placed where
  left : Nat
  top : Nat
  width : Nat
  height : Nat

/-- Where the frame lies that begins at an offset: in steps of two pixels, and sides less one. -/
def Placed.read (bytes : ByteArray) (offset : Nat) : Placed :=
  ⟨2 * Binary.lowFirst bytes offset 3, 2 * Binary.lowFirst bytes (offset + 3) 3,
    Binary.lowFirst bytes (offset + 6) 3 + 1, Binary.lowFirst bytes (offset + 9) 3 + 1⟩

def longestSide : Nat := 16384

def Placed.fits (p : Placed) (canvas : Size) : Bool :=
  p.width ≤ longestSide && p.height ≤ longestSide &&
    p.left + p.width ≤ canvas.width.toNat && p.top + p.height ≤ canvas.height.toNat

def Placed.size (p : Placed) : Size := ⟨p.width.toUInt32, p.height.toUInt32⟩

/-- The image of a frame, whose chunks take no more than its length. Opacities come before the lossy
image that they belong to. -/
def frameIsSound (canvas : Size) (frame : Chunk) (bytes : ByteArray) : Bool :=
  let placed := Placed.read bytes frame.start
  32 ≤ frame.length && placed.fits canvas &&
    match Chunk.read? bytes (frame.start + frameHead) with
    | none => false
    | some c =>
      c.room + 24 ≤ frame.length &&
        match c.tag with
        | .lossy => lossyIsSound placed.size (c.bytes bytes)
        | .lossless => losslessIsSound placed.size (c.bytes bytes)
        | .alpha =>
          c.room + 32 ≤ frame.length && alphaIsSound placed.size (c.bytes bytes) &&
            match Chunk.read? bytes c.stop with
            | some next =>
              c.length + next.length + 32 ≤ frame.length &&
                (Lossy.soundSize (next.bytes bytes)).isSome
            | none => false
        | _ => false

def isSound (h : Head) (bytes : ByteArray) : Bool :=
  if h.animated then
    match h.chunk? .frame with
    | some frame => frameIsSound h.size frame bytes
    | none => false
  else stillIsSound h bytes

def Head.kind (h : Head) : PixelKind := ⟨if h.alpha then .rgba else .rgb, false⟩

def grammar : Grammar where
  Head := Head
  head := head
  size := Head.size
  kind := Head.kind
  tookAll := Head.searched
  body h bytes := if isSound h bytes then .ok ⟨h.size, h.kind, none⟩ else .error .malformed

end ImageCache.Webp
