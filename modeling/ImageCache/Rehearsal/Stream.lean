import ImageCache.Reading.Basic

namespace ImageCache.Rehearsal

inductive Cue where
  /-- At most `n` bytes; nothing for `0`, as if at the end. -/
  | atMost (n : Nat)
  | fails (fault : Fault)

namespace Cue

def isInterruption : Cue → Bool
  | atMost _ => false
  | fails fault => fault.isInterruption

end Cue

structure Stream where
  bytes : ByteArray
  position : Nat
  cues : List Cue
  refrain : List Cue
  /-- No byte at this position or later is ever handed out; a call for one fails. -/
  wall : Option (Nat × Fault)

namespace Stream

def ofBytes (bytes : ByteArray) : Stream := ⟨bytes, 0, [], [], none⟩

def nextCue (s : Stream) : Option Cue × Stream :=
  match s.cues with
  | cue :: rest => (some cue, { s with cues := rest })
  | [] =>
    match s.refrain with
    | cue :: rest => (some cue, { s with cues := rest })
    | [] => (none, s)

def deliver (s : Stream) (n : Nat) : Except Fault ByteArray × Stream :=
  let stop := match s.wall with
    | some (offset, _) => min (s.position + n) offset
    | none => s.position + n
  let bytes := s.bytes.extract s.position stop
  (.ok bytes, { s with position := s.position + bytes.size })

def blocked (s : Stream) (n : Nat) : Option Fault :=
  match s.wall with
  | some (offset, fault) => if 0 < n ∧ offset ≤ s.position then some fault else none
  | none => none

/-- The wall comes before the cues. -/
def read (n : Nat) (s : Stream) : Except Fault ByteArray × Stream :=
  match s.blocked n with
  | some fault => (.error fault, s)
  | none =>
    match s.nextCue with
    | (some (.fails fault), s) => (.error fault, s)
    | (some (.atMost k), s) => s.deliver (min k n)
    | (none, s) => s.deliver n

/-- Every byte takes one call at most, and between two of them all cues are played once at most. -/
def horizon (s : Stream) : Nat :=
  let remaining := s.bytes.size - s.position
  remaining + (s.cues.filter (·.isInterruption)).length +
    (remaining + 1) * (s.refrain.filter (·.isInterruption)).length

def reader : Reader Stream := ⟨read, horizon⟩

/-- Back to the first byte. Cues that were played stay played. -/
def rewound (s : Stream) : Stream := { s with position := 0 }

def file : SeekableReader Stream := ⟨reader, fun s => (.ok (), s.rewound)⟩

end Stream

end ImageCache.Rehearsal
