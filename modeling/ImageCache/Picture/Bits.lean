import ImageCache.Binary

namespace ImageCache

/-- Bytes, and how many of their bits were taken. -/
structure Bits where
  bytes : ByteArray
  position : Nat

inductive BitFault where
  | short
  | wrong
deriving DecidableEq

abbrev Taking := StateT Bits (Except BitFault)

namespace Taking

def wrong {α : Type} : Taking α := fun _ => .error .wrong

def check (ok : Bool) : Taking Unit := if ok then pure () else wrong

def bit : Taking Nat := fun b =>
  if h : b.position / 8 < b.bytes.size then
    let byte := b.bytes[b.position / 8]
    .ok ((byte >>> (b.position % 8).toUInt8 &&& 1).toNat, { b with position := b.position + 1 })
  else .error .short

def flag : Taking Bool := return (← bit) == 1

/-- A number of `n` bits, the lowest first. -/
def bits : (n : Nat) → Taking Nat
  | 0 => pure 0
  | n + 1 => do
    let low ← bit
    let high ← bits n
    return low + 2 * high

/-- The next `n` whole bytes; bits left of a byte that was begun are skipped. -/
def block (n : Nat) : Taking ByteArray := fun b =>
  let start := (b.position + 7) / 8
  if start + n ≤ b.bytes.size then
    .ok (b.bytes.extract start (start + n), { b with position := 8 * (start + n) })
  else .error .short

/-- Every step of a loop takes at least one bit, so the bits that are left bound their number. -/
def left : Taking Nat := fun b => .ok (8 * b.bytes.size - b.position, b)

end Taking

end ImageCache
