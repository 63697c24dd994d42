import ImageCache.Binary

namespace ImageCache

inductive Format where
  | png
  | jpeg
  | gif
  | webp
  | foreign
deriving DecidableEq, Repr

namespace Format

def signatureLength : Nat := 16

/-- The signature stands at the beginning; a place without a byte matches any. -/
def begins (signature : List (Option UInt8)) (bytes : ByteArray) : Bool :=
  decide (signature.length ≤ bytes.size) &&
    signature.zipIdx.all fun (want, i) => want.all (· == Binary.byteAt bytes i)

def letters (text : String) : List (Option UInt8) := text.toUTF8.toList.map some

def gap (n : Nat) : List (Option UInt8) := List.replicate n none

def signatures : List (List (Option UInt8) × Format) := [
  ([0x89, 0x50, 0x4e, 0x47, 0x0d, 0x0a, 0x1a, 0x0a].map some, .png),
  ([0xff, 0xd8, 0xff].map some, .jpeg),
  (letters "GIF89a", .gif),
  (letters "GIF87a", .gif),
  (letters "RIFF" ++ gap 4 ++ letters "WEBP", .webp),
  ([0x4d, 0x4d, 0x00, 0x2a].map some, .foreign),
  ([0x49, 0x49, 0x2a, 0x00].map some, .foreign),
  (letters "DDS ", .foreign),
  (letters "BM", .foreign),
  ([0x00, 0x00, 0x01, 0x00].map some, .foreign),
  (letters "#?RADIANCE", .foreign),
  ([0x00, 0x00].map some ++ gap 2 ++ letters "ftypavif", .foreign),
  ([0x76, 0x2f, 0x31, 0x01].map some, .foreign),
  (letters "qoif", .foreign),
  (letters "P1", .foreign),
  (letters "P2", .foreign),
  (letters "P3", .foreign),
  (letters "P4", .foreign),
  (letters "P5", .foreign),
  (letters "P6", .foreign),
  (letters "P7", .foreign),
  (letters "farbfeld", .foreign)]

def recognise (bytes : ByteArray) : Option Format :=
  (signatures.find? fun (signature, _) => begins signature bytes).map (·.2)

end Format

end ImageCache
