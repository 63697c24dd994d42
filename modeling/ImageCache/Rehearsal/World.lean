import ImageCache.Fetch.Fetcher
import ImageCache.MemoryCache
import ImageCache.Rehearsal.ScriptedSource

namespace ImageCache.Rehearsal

inductive Happening where
  | entryRead (key : String)
  | entryStaged (key : String)
  | committed (key : String)
  | aborted (key : String)
  | maintained
  | transferBegun (url : String)
  | streamOpened (url : String)
  | event (e : Event)
  | logged (r : LogRecord)

structure World (T I : Type) where
  tier : T
  served : List (String × Served)
  memory : MemoryCache I
  journal : Array Happening

namespace World

variable {T I R Wr : Type}

def start (tier : T) (limits : MemoryLimits) : World T I := ⟨tier, [], .empty limits, #[]⟩

def tierPart : Part (World T I) T := ⟨tier, fun t w => { w with tier := t }⟩

def memoryPart : Part (World T I) (MemoryCache I) := ⟨memory, fun m w => { w with memory := m }⟩

def write (h : Happening) : StateM (World T I) Unit :=
  modify fun w => { w with journal := w.journal.push h }

def takeJournal (w : World T I) : List Happening × World T I :=
  (w.journal.toList, { w with journal := #[] })

def serve (w : World T I) (url : String) (s : Served) : World T I :=
  { w with served := (url, s) :: w.served.filter (·.1 != url) }

def servedAt (w : World T I) (url : String) : Served := (w.served.lookup url).getD .nothing

def source : Source (World T I) Stream where
  transfer url := do
    write (.transferBegun url)
    return ((← get).servedAt url).transfer
  openStream url := do
    write (.streamOpened url)
    return ((← get).servedAt url).openStream
  stream :=
    { read := fun n (s, w) => let (reply, s) := s.read n; (reply, (s, w))
      horizon := fun (s, _) => s.horizon }

def memoryTier (cost : I → UInt64) : MemoryTier (World T I) I where
  get key := memoryPart.run fun m => m.get key
  set key image := memoryPart.modify (·.set key image (cost image))
  clear := memoryPart.modify (·.clear)

def note (n : Notice) : StateM (World T I) Unit := write (.logged n.toRecord)

/-- A store whose calls are written down when they are made. -/
def journaled (keyOf : Wr → String) (s : ByteStore (World T I) R Wr) :
    ByteStore (World T I) R Wr where
  read key := do write (.entryRead key); s.read key
  stage key := do write (.entryStaged key); s.stage key
  entry := s.entry
  writer := s.writer
  commit w := do write (.committed (keyOf w)); s.commit w
  abort w := do write (.aborted (keyOf w)); s.abort w
  maintain := do write .maintained; s.maintain

def recorder : Observer (World T I) := ⟨fun _ e => write (.event e)⟩

def logger : Observer (World T I) := .logging fun r => write (.logged r)

end World

def thumbnail : Request := .ofUrl "tile" ⟨1, 1⟩

end ImageCache.Rehearsal
