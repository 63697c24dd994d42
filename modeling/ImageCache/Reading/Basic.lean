import ImageCache.Dialogue
import ImageCache.Fault

namespace ImageCache

/-- A source of bytes with states `σ`. A reply holds at most as many bytes as were asked for. -/
structure Reader (σ : Type) where
  read : Nat → σ → Except Fault ByteArray × σ
  /-- Bounds the bytes and the interruptions that are still to come. -/
  horizon : σ → Nat

structure SeekableReader (σ : Type) extends Reader σ where
  rewind : σ → Except Fault Unit × σ

inductive ReadQuery where
  | upTo (n : Nat)
  | horizon

namespace ReadQuery

@[reducible] def Reply : ReadQuery → Type
  | upTo _ => Except Fault ByteArray
  | horizon => Nat

end ReadQuery

inductive SeekQuery where
  | plain (q : ReadQuery)
  | rewind

namespace SeekQuery

@[reducible] def Reply : SeekQuery → Type
  | plain q => q.Reply
  | rewind => Except Fault Unit

end SeekQuery

abbrev Reading (α : Type) := Dialogue ReadQuery ReadQuery.Reply α

abbrev SeekReading (α : Type) := Dialogue SeekQuery SeekQuery.Reply α

namespace Reader

variable {σ α : Type}

def answer (r : Reader σ) : (q : ReadQuery) → σ → q.Reply × σ
  | .upTo n, s => r.read n s
  | .horizon, s => (r.horizon s, s)

def remap {τ : Type} (r : Reader σ) (into : τ → σ) (back : σ → τ) : Reader τ where
  read n s := let (reply, s) := r.read n (into s); (reply, back s)
  horizon s := r.horizon (into s)

def run (r : Reader σ) (p : Reading α) (s : σ) : α × σ := Dialogue.run r.answer p s

end Reader

namespace SeekableReader

variable {σ α : Type}

def answer (r : SeekableReader σ) : (q : SeekQuery) → σ → q.Reply × σ
  | .plain q, s => r.toReader.answer q s
  | .rewind, s => r.rewind s

def remap {τ : Type} (r : SeekableReader σ) (into : τ → σ) (back : σ → τ) : SeekableReader τ where
  toReader := r.toReader.remap into back
  rewind s := let (reply, s) := r.rewind (into s); (reply, back s)

def run (r : SeekableReader σ) (p : SeekReading α) (s : σ) : α × σ := Dialogue.run r.answer p s

end SeekableReader

namespace Reading

variable {α : Type}

/-- A reading that never starts over, where starting over would be possible. -/
def seekable : Reading α → SeekReading α
  | .done a => .done a
  | .ask q next => .ask (.plain q) fun r => seekable (next r)

def upTo (n : Nat) : Reading (Except Fault ByteArray) := Dialogue.query (ReadQuery.upTo n)

def horizon : Reading Nat := Dialogue.query ReadQuery.horizon

/-- Asks, `fuel` times at most, until `n` bytes have come after those `got`. An interrupted call is
made again. -/
def gather : Nat → Nat → ByteArray → Reading (Except Fault ByteArray)
  | 0, _, _ => pure (.error .shortRead)
  | fuel + 1, n, got =>
    if n = 0 then pure (.ok got) else do
      match ← upTo n with
      | .ok bytes =>
        if bytes.size = 0 then pure (.error .shortRead)
        else gather fuel (n - bytes.size) (got ++ bytes)
      | .error e => if e.isInterruption then gather fuel n got else pure (.error e)

/-- Exactly `n` bytes. What came before a fault is lost. -/
def exactly (n : Nat) : Reading (Except Fault ByteArray) := do
  gather ((← horizon) + 1) n ByteArray.empty

end Reading

def SeekReading.rewind : SeekReading (Except Fault Unit) := Dialogue.query SeekQuery.rewind

end ImageCache
