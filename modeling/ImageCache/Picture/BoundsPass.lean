import ImageCache.Reading.Drain
import ImageCache.Size

namespace ImageCache

structure HeadReader (E : Type) where
  recognises : ByteArray → Bool
  size : ByteArray → Except E Size
  unread : Fault → E
  unrecognised : E

namespace BoundsPass

def firstChunk : Nat := 4096

def largestChunk : Nat := 65536

/-- With so many bytes every format is recognised. -/
def recognisable : Nat := 16

def nextChunk (chunk : Nat) : Nat := min (2 * chunk) largestChunk

variable {E : Type}

/-- Goes on in rounds, `fuel` at most, behind the part of the head that was read already. A head
that begins like no image is given up at once. -/
def rounds (h : HeadReader E) : Nat → Nat → Buffer → Reading (Except E Size)
  | 0, _, head => pure (h.size head.bytes)
  | fuel + 1, chunk, head => do
    match ← Reading.drain head (some chunk) with
    | .error e => pure (.error (h.unread e))
    | .ok more =>
      let exhausted := more.bytes.size == head.bytes.size
      if (decide (recognisable ≤ more.bytes.size) || exhausted) && !h.recognises more.bytes then
        pure (.error h.unrecognised)
      else
        match h.size more.bytes with
        | .ok size => pure (.ok size)
        | .error e =>
          if exhausted then pure (.error e) else rounds h fuel (nextChunk chunk) more

/-- Reads no further than the size needs, up to the end of a round. Every round but the last takes a
byte, so the bytes to come bound their number. -/
def run (h : HeadReader E) : Reading (Except E Size) := do
  rounds h ((← Reading.horizon) + 1) firstChunk Buffer.empty

end BoundsPass

end ImageCache
