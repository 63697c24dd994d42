import ImageCache.Reading.Basic

namespace ImageCache

/-- Bytes, and for how many there is room. -/
structure Buffer where
  bytes : ByteArray
  capacity : Nat

namespace Buffer

def empty : Buffer := ⟨ByteArray.empty, 0⟩

/-- Makes room for `extra` more bytes. A buffer that has to grow at least doubles. -/
def reserve (b : Buffer) (extra : Nat) : Buffer :=
  if b.capacity < b.bytes.size + extra then
    { b with capacity := max 8 (max (2 * b.capacity) (b.bytes.size + extra)) }
  else b

def append (b : Buffer) (more : ByteArray) : Buffer :=
  let room := b.reserve more.size
  { room with bytes := room.bytes ++ more }

def spare (b : Buffer) : Nat := b.capacity - b.bytes.size

end Buffer

/-- A buffer on its way to the end of a reader. One without room is first probed with a few bytes,
so that it does not grow in vain; after that the room it has is asked for, up to a bound that
doubles when a reader keeps filling it. -/
structure Drain where
  buffer : Buffer
  firstCapacity : Nat
  fresh : Bool
  largest : Nat
  left : Option Nat

namespace Drain

def probeSize : Nat := 32

def start (b : Buffer) (left : Option Nat) : Drain := ⟨b, b.capacity, true, 8192, left⟩

/-- The next bytes go to a probe, for the buffer may already hold everything. -/
def probes (d : Drain) : Bool :=
  (d.fresh && d.buffer.spare < probeSize) ||
    (d.buffer.spare == 0 && d.buffer.capacity == d.firstCapacity)

def prepared (d : Drain) : Drain :=
  if d.probes || d.buffer.spare != 0 then d
  else { d with buffer := d.buffer.reserve probeSize }

def room (d : Drain) : Nat :=
  if d.probes then probeSize else min d.buffer.spare d.largest

def request (d : Drain) : Nat :=
  match d.left with
  | none => d.room
  | some n => min d.room n

def accept (d : Drain) (bytes : ByteArray) : Drain where
  buffer := d.buffer.append bytes
  firstCapacity := d.firstCapacity
  fresh := false
  largest :=
    if !d.probes && d.largest ≤ d.room && bytes.size == d.room then 2 * d.largest else d.largest
  left := d.left.map (· - bytes.size)

def loop : Nat → Drain → Reading (Except Fault Buffer)
  | 0, d => pure (.ok d.buffer)
  | fuel + 1, d =>
    let d := d.prepared
    if d.left = some 0 then pure (.ok d.buffer) else do
      match ← Reading.upTo d.request with
      | .ok bytes =>
        if bytes.size = 0 then pure (.ok d.buffer) else loop fuel (d.accept bytes)
      | .error e => if e.isInterruption then loop fuel d else pure (.error e)

end Drain

namespace Reading

/-- Reads into a buffer to the end of the reader, or until `left` more bytes have come. -/
def drain (b : Buffer) (left : Option Nat) : Reading (Except Fault Buffer) := do
  Drain.loop ((← horizon) + 1) (Drain.start b left)

def toEnd : Reading (Except Fault ByteArray) := do
  return (← drain Buffer.empty none).map (·.bytes)

end Reading

end ImageCache
