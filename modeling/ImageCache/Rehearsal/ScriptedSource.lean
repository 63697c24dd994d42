import ImageCache.Fetch.Collaborator
import ImageCache.Rehearsal.Stream

namespace ImageCache.Rehearsal

/-- One move of a transfer. A move whose fault is ignored never ends the transfer. -/
inductive Move where
  | writeAll (bytes : ByteArray)
  | writeOnce (bytes : ByteArray)
  | flush
  | fail (fault : Fault)

namespace Move

def play : Move → Transfer
  | writeAll bytes => Writing.writeAll bytes
  | writeOnce bytes => do return (← Writing.write bytes).map fun _ => ()
  | flush => Writing.flush
  | fail fault => pure (.error fault)

end Move

/-- Plays moves until one fails whose fault counts. -/
def playAll : List (Move × Bool) → Transfer
  | [] => pure (.ok ())
  | (move, ignored) :: rest => do
    match ← move.play with
    | .ok () => playAll rest
    | .error e => if ignored then playAll rest else pure (.error e)

structure Served where
  moves : Option (List (Move × Bool))
  openFault : Option Fault
  stream : Option Stream

namespace Served

def nothing : Served := ⟨none, none, none⟩

def transfer (s : Served) : Transfer :=
  match s.moves, s.stream with
  | some moves, _ => playAll moves
  | none, some stream => Writing.writeAll stream.bytes
  | none, none => pure (.error (.reported .notFound "404"))

def openStream (s : Served) : Except Fault (Option Stream) :=
  match s.openFault with
  | some e => .error e
  | none => .ok s.stream

end Served

end ImageCache.Rehearsal
