import ImageCache.Dialogue
import ImageCache.Fault

namespace ImageCache

structure Sink (σ : Type) where
  /-- Tells how many of the bytes were taken, counted from the front. -/
  write : ByteArray → σ → Except Fault Nat × σ
  flush : σ → Except Fault Unit × σ
  /-- Bounds the interruptions that are still to come. -/
  horizon : σ → Nat

inductive SinkQuery where
  | write (bytes : ByteArray)
  | flush
  | horizon

namespace SinkQuery

@[reducible] def Reply : SinkQuery → Type
  | write _ => Except Fault Nat
  | flush => Except Fault Unit
  | horizon => Nat

end SinkQuery

abbrev Writing (α : Type) := Dialogue SinkQuery SinkQuery.Reply α

/-- Writes a whole resource, or tells why it broke off. -/
abbrev Transfer := Writing (Except Fault Unit)

namespace Sink

variable {σ α : Type}

def answer (k : Sink σ) : (q : SinkQuery) → σ → q.Reply × σ
  | .write bytes, s => k.write bytes s
  | .flush, s => k.flush s
  | .horizon, s => (k.horizon s, s)

def run (k : Sink σ) (p : Writing α) (s : σ) : α × σ := Dialogue.run k.answer p s

end Sink

namespace Writing

def write (bytes : ByteArray) : Writing (Except Fault Nat) := Dialogue.query (SinkQuery.write bytes)

def flush : Transfer := Dialogue.query SinkQuery.flush

def horizon : Writing Nat := Dialogue.query SinkQuery.horizon

/-- Offers the bytes, `fuel` times at most, until all were taken. An interrupted offer is made
again; an offer of which nothing is taken is a fault. -/
def pour : Nat → ByteArray → Transfer
  | 0, _ => pure (.error .refusedBytes)
  | fuel + 1, bytes =>
    if bytes.size = 0 then pure (.ok ()) else do
      match ← write bytes with
      | .ok n =>
        if n = 0 then pure (.error .refusedBytes) else pour fuel (bytes.extract n bytes.size)
      | .error e => if e.isInterruption then pour fuel bytes else pure (.error e)

def writeAll (bytes : ByteArray) : Transfer := do
  pour ((← horizon) + bytes.size + 1) bytes

end Writing

structure Watched (σ : Type) where
  inner : σ
  /-- How many bytes the sink took. Like a position in a reader it never comes near the end of a
  word of 64 bits, since every byte that is counted was moved. -/
  accepted : Nat
  /-- Some call to the sink failed, whatever came of it later. -/
  failed : Bool

namespace Watched

variable {σ H W : Type}

def start (inner : σ) : Watched σ := ⟨inner, 0, false⟩

def detach (s : Watched (H × W)) : Watched H × W := (⟨s.inner.1, s.accepted, s.failed⟩, s.inner.2)

def write (k : Sink σ) (bytes : ByteArray) (s : Watched σ) : Except Fault Nat × Watched σ :=
  match k.write bytes s.inner with
  | (.ok n, inner) => (.ok n, { s with inner := inner, accepted := s.accepted + n })
  | (.error e, inner) => (.error e, { s with inner := inner, failed := true })

def flush (k : Sink σ) (s : Watched σ) : Except Fault Unit × Watched σ :=
  match k.flush s.inner with
  | (.ok (), inner) => (.ok (), { s with inner := inner })
  | (.error e, inner) => (.error e, { s with inner := inner, failed := true })

def sink (k : Sink σ) : Sink (Watched σ) := ⟨write k, flush k, fun s => k.horizon s.inner⟩

end Watched

end ImageCache
