import ImageCache.Fetch.Collaborator
import ImageCache.Picture.BoundsPass
import ImageCache.Picture.Format
import ImageCache.Picture.Gif.File
import ImageCache.Picture.Jpeg.File
import ImageCache.Picture.Png.File
import ImageCache.Picture.Shrink
import ImageCache.Picture.Webp.File

namespace ImageCache

def Format.grammar : Format → Option Grammar
  | png => some Png.grammar
  | jpeg => some Jpeg.grammar
  | gif => some Gif.grammar
  | webp => some Webp.grammar
  | foreign => none

namespace Picture

def grammarOf (bytes : ByteArray) : Except PictureFault Grammar :=
  match (Format.recognise bytes).bind Format.grammar with
  | some g => .ok g
  | none => .error .unsupported

/-- The size of the image in the bytes, as far as their head tells it. -/
def sizeIn (bytes : ByteArray) : Except PictureFault Size :=
  match grammarOf bytes with
  | .ok g => g.sizeIn bytes
  | .error e => .error e

def pictureIn (bytes : ByteArray) : Except PictureFault Raster :=
  match grammarOf bytes with
  | .ok g => g.pictureIn bytes
  | .error e => .error e

def headReader : HeadReader PictureFault where
  recognises bytes := (Format.recognise bytes).isSome
  size := sizeIn
  unread := .unread
  unrecognised := .unsupported

def bounds : Reading (Except PictureFault Size) := BoundsPass.run headReader

def decode (filter : Filter) (factor : UInt32) : Reading (Except PictureFault Raster) := do
  match ← Reading.toEnd with
  | .error e => return .error (.unread e)
  | .ok bytes => return (pictureIn bytes).map (Raster.shrink filter factor)

/-- Looks at the first bytes, starts over, and goes on with the grammar they call for. -/
def recognised {α : Type} (next : Grammar → Reading (Except PictureFault α)) :
    SeekReading (Except PictureFault α) := do
  match ← (Reading.drain Buffer.empty (some Format.signatureLength)).seekable with
  | .error e => return .error (.unread e)
  | .ok start =>
    match ← SeekReading.rewind with
    | .error e => return .error (.unread e)
    | .ok () =>
      match grammarOf start.bytes with
      | .ok g => (next g).seekable
      | .error e => return .error e

def codec (filter : Filter) : Codec Raster PictureFault where
  bounds := bounds
  decode := decode filter
  boundsSeekable := recognised Grammar.readSize
  decodeSeekable factor := do
    return (← recognised Grammar.readPicture).map (Raster.shrink filter factor)

def defaultFilter : Filter := .triangle

end Picture

end ImageCache
