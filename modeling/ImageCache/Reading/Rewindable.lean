import ImageCache.Reading.Basic

namespace ImageCache

/-- A reader that can be taken back a bounded way. Once more bytes came than the limit allows, the
saved position is forgotten. -/
structure Rewindable (σ : Type) where
  inner : σ
  /-- How many bytes were handed out, replays not counted twice. A word of 64 bits would hold it
  just as well: to count up to its end takes reads of 2^64 bytes, one after another. -/
  position : Nat
  mark : Option Nat
  limit : Nat
  /-- The bytes from the mark on that came out of the inner reader. -/
  history : ByteArray

namespace Rewindable

variable {σ H W : Type}

def detach (s : Rewindable (H × W)) : Rewindable H × W :=
  (⟨s.inner.1, s.position, s.mark, s.limit, s.history⟩, s.inner.2)

def attach (s : Rewindable H × W) : Rewindable (H × W) :=
  ⟨(s.1.inner, s.2), s.1.position, s.1.mark, s.1.limit, s.1.history⟩

def start (inner : σ) : Rewindable σ := ⟨inner, 0, none, 0, ByteArray.empty⟩

def ahead (s : Rewindable σ) : ByteArray :=
  match s.mark with
  | some m => s.history.extract (s.position - m) s.history.size
  | none => ByteArray.empty

/-- Saves the position, which then holds for `limit` further bytes. Kept bytes that lie ahead stay
kept. -/
def savePosition (limit : Nat) (s : Rewindable σ) : Nat × Rewindable σ :=
  (s.position, { s with mark := some s.position, limit := limit, history := s.ahead })

def reset (token : Nat) (s : Rewindable σ) : Except Fault Unit × Rewindable σ :=
  match s.mark with
  | some m =>
    if m ≤ token ∧ token ≤ m + s.history.size then (.ok (), { s with position := token })
    else (.error .outsideWindow, s)
  | none => (.error .outsideWindow, s)

def receive (bytes : ByteArray) (s : Rewindable σ) : Rewindable σ :=
  let moved := { s with position := s.position + bytes.size }
  if s.mark.isSome then
    if s.history.size + bytes.size ≤ s.limit then { moved with history := s.history ++ bytes }
    else { moved with mark := none, history := ByteArray.empty }
  else moved

/-- Kept bytes come first; the inner reader is asked only when none lies ahead. -/
def read (r : Reader σ) (n : Nat) (s : Rewindable σ) : Except Fault ByteArray × Rewindable σ :=
  if s.ahead.size ≠ 0 then
    let bytes := s.ahead.extract 0 n
    (.ok bytes, { s with position := s.position + bytes.size })
  else
    match r.read n s.inner with
    | (.ok bytes, inner) => (.ok bytes, { s with inner := inner }.receive bytes)
    | (.error e, inner) => (.error e, { s with inner := inner })

def reader (r : Reader σ) : Reader (Rewindable σ) where
  read := read r
  horizon s := s.ahead.size + r.horizon s.inner

end Rewindable

end ImageCache
