import ImageCache.Binary
import ImageCache.Picture.Fault
import ImageCache.Picture.Webp.Lossy.Frame

namespace ImageCache.Webp

inductive Tag where
  | lossy
  | lossless
  | extended
  | alpha
  | animation
  | frame
  | exif
  | xmp
  | other
deriving DecidableEq

namespace Tag

def names : List (String × Tag) := [
  ("VP8 ", lossy), ("VP8L", lossless), ("VP8X", extended), ("ALPH", alpha), ("ANIM", animation),
  ("ANMF", frame), ("EXIF", exif), ("XMP ", xmp)]

def read (bytes : ByteArray) (offset : Nat) : Tag :=
  match names.find? fun (name, _) => Binary.spells bytes offset name with
  | some (_, tag) => tag
  | none => other

end Tag

structure Chunk where
  tag : Tag
  start : Nat
  length : Nat

namespace Chunk

def headLength : Nat := 8

/-- The chunk whose tag stands at an offset. Its contents may be cut short. -/
def read? (bytes : ByteArray) (offset : Nat) : Option Chunk :=
  if offset + headLength ≤ bytes.size then
    some ⟨Tag.read bytes offset, offset + headLength, Binary.lowFirst bytes (offset + 4) 4⟩
  else none

/-- Contents of odd length are followed by one more byte. -/
def room (c : Chunk) : Nat := min 0xffffffff (c.length + c.length % 2)

def stop (c : Chunk) : Nat := c.start + c.room

def bytes (c : Chunk) (file : ByteArray) : ByteArray := file.extract c.start (c.start + c.length)

/-- The chunks that begin at an offset below the limit, and where the search for another ended. -/
def listFrom (bytes : ByteArray) (limit offset : Nat) : List Chunk × Nat :=
  if _more : offset < limit ∧ offset + headLength ≤ bytes.size then
    let room := Binary.lowFirst bytes (offset + 4) 4
    let c : Chunk := ⟨Tag.read bytes offset, offset + headLength, room⟩
    let (rest, stop) := listFrom bytes limit c.stop
    (c :: rest, stop)
  else ([], offset)
termination_by bytes.size - offset
decreasing_by simp only [stop, headLength] at *; omega

end Chunk

structure Head where
  size : Size
  alpha : Bool
  animated : Bool
  /-- Of two chunks with one tag the first counts. -/
  chunks : List Chunk
  /-- The chunks were looked for up to the end of the bytes. -/
  searched : Bool

def Head.chunk? (h : Head) (tag : Tag) : Option Chunk := h.chunks.find? (·.tag = tag)

/-- After a signature byte, each side less one in fourteen bits, a bit for transparency, and three
bits of a version that is zero. A side of 16384 comes out as none. -/
def losslessHead (bytes : ByteArray) (c : Chunk) : Except PictureFault Head :=
  if bytes.size < c.start + 5 then .error .truncated
  else
    let word := Binary.lowFirst bytes (c.start + 1) 4
    if Binary.byteAt bytes c.start == 0x2f && word >>> 29 == 0 then
      .ok ⟨⟨((word + 1) % 16384).toUInt32, ((word >>> 14 + 1) % 16384).toUInt32⟩,
        word >>> 28 % 2 == 1, false, [c], false⟩
    else .error .malformed

def lossyHead (bytes : ByteArray) (c : Chunk) : Except PictureFault Head :=
  if bytes.size < c.start + Lossy.headLength then .error .truncated
  else
    match Lossy.sizeIn (bytes.extract c.start bytes.size) with
    | some size =>
      if size.isEmpty then .error .malformed else .ok ⟨size, false, false, [c], false⟩
    | none => .error .malformed

def frameHead : Nat := 16

/-- Every frame has the bytes that tell where and when it is shown. Up to the first frame that is
lossy the head of its first chunk is there, too. -/
def framesAreRight (bytes : ByteArray) : (lossy : Bool) → List Chunk → Bool
  | _, [] => true
  | lossy, c :: rest =>
    if c.tag = .frame then
      let inner := Tag.read bytes (c.start + frameHead)
      24 ≤ c.length && c.start + frameHead ≤ bytes.size &&
        (lossy || c.start + frameHead + Chunk.headLength ≤ bytes.size) &&
        framesAreRight bytes (lossy || inner == .lossy || inner == .alpha) rest
    else framesAreRight bytes lossy rest

structure Flags where
  alpha : Bool
  exif : Bool
  xmp : Bool
  animated : Bool

def Flags.ofByte (b : UInt8) : Flags :=
  ⟨b &&& 0x10 != 0, b &&& 0x08 != 0, b &&& 0x04 != 0, b &&& 0x02 != 0⟩

/-- Chunks are there as the flags tell. An image that does not move is coded in one way only. -/
def Flags.allow (f : Flags) (chunks : List Chunk) : Bool :=
  let has (tag : Tag) : Bool := chunks.any (·.tag = tag)
  (!f.exif || has .exif) && (!f.xmp || has .xmp) &&
    if f.animated then has .animation && has .frame else has .lossy != has .lossless

def animationIsRight (bytes : ByteArray) (chunks : List Chunk) : Bool :=
  match chunks.find? (·.tag = .animation) with
  | some c => c.length == 6 && c.start + c.length ≤ bytes.size
  | none => false

/-- The chunks of the first frame, one or two, if there is a frame. -/
def frameChunks (bytes : ByteArray) (chunks : List Chunk) : Option (List Chunk) :=
  match chunks.find? (·.tag = .frame) with
  | none => some []
  | some frame => do
    let first ← Chunk.read? bytes (frame.start + frameHead)
    if first.stop + Chunk.headLength ≤ frame.start + frame.length then
      return [first, ← Chunk.read? bytes first.stop]
    else return [first]

/-- The head of a file with a canvas, of which `c` is the first chunk. The length of the file counts
from behind it. -/
def extendedHead (bytes : ByteArray) (fileLength : Nat) (c : Chunk) : Except PictureFault Head :=
  if bytes.size < c.start + 10 then .error .truncated
  else
    let flags := Flags.ofByte (Binary.byteAt bytes c.start)
    let width := Binary.lowFirst bytes (c.start + 4) 3 + 1
    let height := Binary.lowFirst bytes (c.start + 7) 3 + 1
    let limit := c.stop + (fileLength - 12)
    let (chunks, stop) := Chunk.listFrom bytes limit c.stop
    if width * height < 1 <<< 32 && framesAreRight bytes false chunks && flags.allow chunks &&
        (!flags.animated || animationIsRight bytes chunks) then
      match frameChunks bytes chunks with
      | some inner =>
        .ok ⟨⟨width.toUInt32, height.toUInt32⟩, flags.alpha, flags.animated, chunks ++ inner,
          stop < limit⟩
      | none => .error .truncated
    else .error .malformed

def head (bytes : ByteArray) : Except PictureFault Head :=
  match Chunk.read? bytes 12 with
  | none => .error .truncated
  | some c =>
    if Binary.spells bytes 0 "RIFF" && Binary.spells bytes 8 "WEBP" then
      match c.tag with
      | .lossy => lossyHead bytes c
      | .lossless => losslessHead bytes c
      | .extended => extendedHead bytes (Binary.lowFirst bytes 4 4) c
      | _ => .error .malformed
    else .error .malformed

end ImageCache.Webp
