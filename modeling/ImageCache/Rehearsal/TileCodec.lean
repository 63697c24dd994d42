import ImageCache.Binary
import ImageCache.Fetch.Collaborator
import ImageCache.Reading.Drain

namespace ImageCache.Rehearsal

/-- What a test wants to see of a decoding: the sides, the factor and a digest of the rest. -/
structure Tile where
  width : UInt32
  height : UInt32
  factor : UInt32
  restSize : Nat
  checksum : UInt32

namespace Tile

def cost (t : Tile) : UInt64 := t.width.toUInt64 * t.height.toUInt64

def word (bytes : ByteArray) (i : Nat) : UInt32 := (Binary.lowFirst bytes i 4).toUInt32

def bounds : Reading (Except Fault Size) := do
  match ← Reading.exactly 12 with
  | .error e => pure (.error e)
  | .ok header =>
    if Binary.spells header 0 "TIMG" then
      pure (.ok ⟨word header 4, word header 8⟩)
    else pure (.error (.reported .invalidData "bad magic"))

def checksumOf (bytes : ByteArray) : UInt32 :=
  bytes.foldl (fun c b => c * 31 + b.toUInt32) 0

def decode (factor : UInt32) : Reading (Except Fault Tile) := do
  match ← bounds with
  | .error e => pure (.error e)
  | .ok size =>
    match ← Reading.toEnd with
    | .error e => pure (.error e)
    | .ok rest =>
      let small := size.shrink factor
      pure (.ok ⟨small.width, small.height, factor, rest.size, checksumOf rest⟩)

def codec : Codec Tile Fault := .sequential bounds decode

end Tile

def smallTile : ByteArray := ⟨#[84, 73, 77, 71, 4, 0, 0, 0, 4, 0, 0, 0, 1, 2]⟩

end ImageCache.Rehearsal
