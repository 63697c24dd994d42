import ImageCache.Binary

namespace ImageCache.Gif

structure Dictionary where
  valueBits : Nat
  entries : Array ByteArray
  codeBits : Nat
  /-- The entry that came last, unless the dictionary was just emptied. -/
  last : Option ByteArray

namespace Dictionary

def longestCode : Nat := 12

/-- The code that empties the dictionary; the next one marks the end. -/
def clearCode (d : Dictionary) : Nat := 1 <<< d.valueBits

def endCode (d : Dictionary) : Nat := d.clearCode + 1

/-- One entry for each value, and two places for the codes that name none. -/
def start (valueBits : Nat) : Dictionary where
  valueBits := valueBits
  entries :=
    (Array.ofFn fun i : Fin (1 <<< valueBits) => ByteArray.empty.push i.val.toUInt8) ++
      #[ByteArray.empty, ByteArray.empty]
  codeBits := valueBits + 1
  last := none

def isPlain (d : Dictionary) (code : Nat) : Bool :=
  decide (code < d.entries.size) && code != d.clearCode && code != d.endCode

def entry (d : Dictionary) (code : Nat) : ByteArray := d.entries.getD code ByteArray.empty

/-- What a code stands for: an entry, or the one that is just being made. -/
def meaning (d : Dictionary) (code : Nat) : Option ByteArray :=
  match d.last with
  | some last =>
    if code < d.entries.size then some (d.entry code)
    else if code = d.entries.size then some (last.push (Binary.byteAt last 0))
    else none
  | none => if code < d.entries.size then some (d.entry code) else none

/-- Codes that may still be made before the next ones get longer. -/
def free (d : Dictionary) : Nat := (1 <<< d.codeBits) - 1 - d.entries.size

/-- Takes up an entry that a code stood for, and makes a new one while there are codes for more. -/
def learn (d : Dictionary) (entry : ByteArray) : Dictionary :=
  match d.last with
  | some last =>
    if d.entries.size < 1 <<< longestCode then
      { d with
        entries := d.entries.push (last.push (Binary.byteAt entry 0))
        last    := some entry }
    else { d with last := some entry }
  | none => { d with last := some entry }

def widened (d : Dictionary) : Dictionary :=
  if 1 <<< d.codeBits ≤ d.entries.size && d.codeBits < longestCode then
    { d with codeBits := d.codeBits + 1 }
  else d

end Dictionary

end ImageCache.Gif
