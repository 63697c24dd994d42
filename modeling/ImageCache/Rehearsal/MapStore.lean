import ImageCache.Fetch.Collaborator
import ImageCache.Rehearsal.Stream

namespace ImageCache.Rehearsal

structure StoreFaults where
  readsLeft : Option Nat
  failStage : Bool
  interruptions : Nat
  writeCap : Option Nat
  room : Option Nat
  failFlush : Bool
  failCommit : Bool
  loseCommits : Bool
  replacement : Option ByteArray
  failAbort : Bool
  failRewind : Bool
  readWall : Option Nat

namespace StoreFaults

def none : StoreFaults :=
  ⟨.none, false, 0, .none, .none, false, false, false, .none, false, false, .none⟩

def accepts (f : StoreFaults) (size n : Nat) : Option Nat :=
  let capped := match f.writeCap with
    | some cap => min n cap
    | .none => n
  match f.room with
  | some room => if 0 < n ∧ room ≤ size then .none else some (min capped (room - size))
  | .none => some capped

end StoreFaults

structure MapStore where
  entries : List (String × ByteArray)
  writing : List String
  faults : StoreFaults

/-- An entry opened for reading. Whether it can start over was settled when it was opened. -/
structure MapEntry where
  stream : Stream
  rewinds : Bool

structure MapWriter where
  key : String
  written : ByteArray

namespace MapStore

def empty : MapStore := ⟨[], [], .none⟩

def find? (s : MapStore) (key : String) : Option ByteArray := s.entries.lookup key

def erase (s : MapStore) (key : String) : MapStore :=
  { s with entries := s.entries.filter (·.1 != key) }

def insert (s : MapStore) (key : String) (bytes : ByteArray) : MapStore :=
  { s with entries := (key, bytes) :: (s.erase key).entries }

def holds (s : MapStore) (key : String) : Bool := s.writing.contains key

def release (s : MapStore) (key : String) : MapStore :=
  { s with writing := s.writing.filter (· != key) }

def opened (s : MapStore) (key : String) : Option MapEntry :=
  (s.find? key).map fun bytes =>
    ⟨{ Stream.ofBytes bytes with
        wall := s.faults.readWall.map (·, .reported .brokenPipe "disk read failed") },
      !s.faults.failRewind⟩

def read (key : String) (s : MapStore) : Except Fault (Option MapEntry) × MapStore :=
  match s.faults.readsLeft with
  | some 0 => (.error (.reported .permissionDenied "unreadable"), s)
  | some (n + 1) => (.ok (s.opened key), { s with faults := { s.faults with readsLeft := some n } })
  | none => (.ok (s.opened key), s)

def stage (key : String) (s : MapStore) : Except Fault (Option MapWriter) × MapStore :=
  if s.faults.failStage then (.error (.reported .permissionDenied "open refused"), s)
  else if s.holds key then (.ok none, s)
  else (.ok (some ⟨key, ByteArray.empty⟩), { s with writing := key :: s.writing })

def write (bytes : ByteArray) : MapWriter × MapStore → Except Fault Nat × (MapWriter × MapStore)
  | (w, s) =>
    match s.faults.interruptions with
    | n + 1 =>
      (.error (.reported .interrupted "interrupted"),
        (w, { s with faults := { s.faults with interruptions := n } }))
    | 0 =>
      match s.faults.accepts w.written.size bytes.size with
      | none => (.error (.reported .storageFull "disk full"), (w, s))
      | some n => (.ok n, ({ w with written := w.written ++ bytes.extract 0 n }, s))

def flush : MapWriter × MapStore → Except Fault Unit × (MapWriter × MapStore)
  | (w, s) =>
    if s.faults.failFlush then (.error (.reported .other "flush refused"), (w, s))
    else (.ok (), (w, s))

def commit (w : MapWriter) (s : MapStore) : Except Fault Unit × MapStore :=
  let s := s.release w.key
  if s.faults.failCommit then (.error (.reported .other "commit refused"), s)
  else if s.faults.loseCommits then (.ok (), s)
  else (.ok (), s.insert w.key (s.faults.replacement.getD w.written))

def abort (w : MapWriter) (s : MapStore) : Except Fault Unit × MapStore :=
  let s := s.release w.key
  if s.faults.failAbort then (.error (.reported .timedOut "abort refused"), s) else (.ok (), s)

def rewind : MapEntry × MapStore → Except Fault Unit × (MapEntry × MapStore)
  | (e, s) =>
    if e.rewinds then (.ok (), ({ e with stream := e.stream.rewound }, s))
    else (.error (.reported .other "seek refused"), (e, s))

def entry : SeekableReader (MapEntry × MapStore) where
  read n := fun (e, s) =>
    let (reply, stream) := e.stream.read n
    (reply, ({ e with stream := stream }, s))
  horizon := fun (e, _) => e.stream.horizon
  rewind := rewind

def writer : Sink (MapWriter × MapStore) := ⟨write, flush, fun (_, s) => s.faults.interruptions⟩

def byteStore {W : Type} (p : Part W MapStore) : ByteStore W MapEntry MapWriter where
  read key := p.run (read key)
  stage key := p.run (stage key)
  entry :=
    { read := fun n => p.runWith (entry.read n)
      horizon := fun (e, w) => entry.horizon (e, p.get w)
      rewind := p.runWith entry.rewind }
  writer :=
    { write := fun bytes => p.runWith (writer.write bytes)
      flush := p.runWith writer.flush
      horizon := fun (e, w) => writer.horizon (e, p.get w) }
  commit w := p.run (commit w)
  abort w := p.run (abort w)
  maintain := pure .idle

end MapStore

end ImageCache.Rehearsal
