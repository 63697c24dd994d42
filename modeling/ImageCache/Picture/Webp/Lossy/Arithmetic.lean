import ImageCache.Picture.Bits

namespace ImageCache.Webp.Lossy

/-- A decoder of bits that are coded by their probabilities. Each bit splits the range in proportion
to its probability and goes on with one of the parts. Bytes behind the end count as zero, but no
more than one of them may be needed. -/
structure Arithmetic where
  bytes : ByteArray
  position : Nat
  value : Nat
  /-- From 128 to 255. -/
  range : Nat

abbrev Deciding := StateT Arithmetic (Except BitFault)

namespace Arithmetic

def start (bytes : ByteArray) : Arithmetic := ⟨bytes, 8, (Binary.byteAt bytes 0).toNat, 255⟩

/-- So many of the next bits, eight at most, as a number. -/
def ahead (a : Arithmetic) (n : Nat) : Nat :=
  let byte := a.position / 8
  Binary.highFirst a.bytes byte 2 >>> (16 - a.position % 8 - n) % (1 <<< n)

def widened (a : Arithmetic) : Arithmetic :=
  let n := 7 - a.range.log2
  { a with
    position := a.position + n
    value    := a.value <<< n + a.ahead n
    range    := a.range <<< n }

def split (a : Arithmetic) (probability : Nat) : Nat := 1 + (a.range - 1) * probability / 256

/-- The last byte that may be needed was used up. -/
def isExhausted (a : Arithmetic) : Bool := 8 * a.bytes.size + 8 < a.position

end Arithmetic

namespace Deciding

def bit (probability : Nat) : Deciding Bool := fun a =>
  if a.isExhausted then .error .short
  else
    let split := a.split probability
    if split ≤ a.value then
      .ok (true, { a with value := a.value - split, range := a.range - split }.widened)
    else .ok (false, { a with range := split }.widened)

def flag : Deciding Bool := bit 128

def digits : List Nat → (sofar : Nat) → Deciding Nat
  | [], sofar => pure sofar
  | p :: rest, sofar => do digits rest (2 * sofar + (← bit p).toNat)

def number (n : Nat) : Deciding Nat := digits (List.replicate n 128) 0

/-- Passes over a number that may be missing, with a sign behind its `n` bits. -/
def skipSigned (n : Nat) : Deciding Unit := do
  if ← flag then
    let _size ← number n
    let _sign ← flag

def wrong {α : Type} : Deciding α := fun _ => .error .wrong

end Deciding

/-- A tree of decisions, with the place of the probability in each node. -/
inductive Tree where
  | leaf (value : Nat)
  | node (probability : Nat) (zero one : Tree)

def Tree.read (probability : Nat → Nat) : Tree → Deciding Nat
  | leaf value => pure value
  | node p zero one => do
    if ← Deciding.bit (probability p) then one.read probability else zero.read probability

end ImageCache.Webp.Lossy
