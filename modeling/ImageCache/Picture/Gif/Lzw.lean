import ImageCache.Picture.Gif.Dictionary

namespace ImageCache.Gif

/-- A decompression between two calls. -/
structure Lzw where
  dictionary : Dictionary
  /-- Bits that are not yet used, as a number, and how many. -/
  held : Nat
  heldBits : Nat
  /-- The end of an entry for which there was no room. -/
  pending : ByteArray
  ended : Bool

structure Lzw.Call where
  state : Lzw
  input : ByteArray
  taken : Nat
  output : ByteArray
  room : Nat

namespace Lzw

def start (valueBits : Nat) : Lzw := ⟨.start valueBits, 0, 0, ByteArray.empty, false⟩

def storeBits : Nat := 64

/-- Codes that are used up together at most. -/
def largestBurst : Nat := 6

def codes (s : Lzw) : List Nat :=
  let width := s.dictionary.codeBits
  (List.range (min largestBurst (s.heldBits / width))).map fun i =>
    s.held >>> (i * width) % (1 <<< width)

def drop (s : Lzw) (n : Nat) : Lzw :=
  let bits := n * s.dictionary.codeBits
  { s with held := s.held >>> bits, heldBits := s.heldBits - bits }

/-- Splits codes into those in front, which name entries that fit in the room, and the one behind
them. No codes get longer before it. -/
def burst (d : Dictionary) : List Nat → (front : List Nat) → (room : Nat) → Option (List Nat × Nat)
  | [], _, _ => none
  | [code], front, _ => some (front.reverse, code)
  | code :: rest, front, room =>
    let size := (d.entry code).size
    if front.length < d.free && d.isPlain code && size ≤ room then
      burst d rest (code :: front) (room - size)
    else some (front.reverse, code)

namespace Call

variable (c : Call)

def withDictionary (d : Dictionary) : Call :=
  { c with state := { c.state with dictionary := d } }

def refilled : Call :=
  let n := min ((storeBits - c.state.heldBits) / 8) (c.input.size - c.taken)
  let more := Binary.lowFirst c.input c.taken n
  { c with
    taken := c.taken + n
    state := { c.state with
      held     := c.state.held + more <<< c.state.heldBits
      heldBits := c.state.heldBits + 8 * n } }

def put (entry : ByteArray) : Call :=
  { c with output := c.output ++ entry, room := c.room - entry.size }

def delivered : Call :=
  let pending := c.state.pending
  let rest := { c.state with pending := pending.extract c.room pending.size }
  { c with state := rest }.put (pending.extract 0 c.room)

def cleared : Call := c.withDictionary (.start c.state.dictionary.valueBits)

def ended : Call :=
  { c.withDictionary { c.state.dictionary with last := none } with
    state := { c.state with ended := true } }

/-- Uses up the first code of a dictionary. -/
def opened : Option Call :=
  let c := if c.state.heldBits < c.state.dictionary.codeBits then c.refilled else c
  let d := c.state.dictionary
  match c.state.codes with
  | [] => some c
  | code :: _ =>
    let c := { c with state := c.state.drop 1 }
    if code = d.clearCode then some c.cleared
    else if code = d.endCode then some c.ended
    else do
      let entry ← d.meaning code
      let c := c.withDictionary (d.learn entry)
      return { c with state := { c.state with pending := entry } }

def plain (code : Nat) : Call :=
  let entry := c.state.dictionary.entry code
  (c.withDictionary (c.state.dictionary.learn entry)).put entry

/-- Uses up codes, in `fuel` bursts at most, until there is no room or no code, or the dictionary
is emptied. -/
def bursts : Nat → Call → Option Call
  | 0, c => some c
  | fuel + 1, c =>
    if c.state.dictionary.last.isNone || (c.room == 0 && !c.state.pending.isEmpty) then some c
    else
      let c := c.refilled
      match burst c.state.dictionary c.state.codes [] c.room with
      | none => some c
      | some (front, code) =>
        let c := { c with state := c.state.drop (front.length + 1) }
        let c := front.foldl plain c
        let d := c.state.dictionary
        if code = d.clearCode then some c.cleared
        else if code = d.endCode then some c.ended
        else
          match d.meaning code with
          | none => none
          | some entry =>
            let c := c.withDictionary (d.learn entry).widened
            if entry.size ≤ c.room then
              let c := c.put entry
              if c.room = 0 then some c else bursts fuel c
            else some { c with state := { c.state with pending := entry } }

end Call

/-- A call. It fails as a whole at a code without a meaning, even if all its room was filled before,
so it matters how many codes a call looks at. -/
def advance (s : Lzw) (input : ByteArray) (room : Nat) : Option Call := do
  let c : Call := ⟨s, input, 0, ByteArray.empty, room⟩
  if s.ended then return c
  let c ← if s.dictionary.last.isNone then c.opened else some c
  let c := c.delivered
  c.bursts (storeBits + 8 * input.size + 1)

end Lzw

end ImageCache.Gif
