import ImageCache.DirectoryStore.EntryPath
import ImageCache.Disk.OpenFile
import ImageCache.Disk.Operations
import ImageCache.Settings

namespace ImageCache

/-- Entries in a directory, one file each. A writer stages into a file of its own beside the entry.
The file is made only where none stands, so that a second writer of the key is turned away, and a
commit moves it to its place, so that readers see whole entries only. -/
structure DirectoryStore where
  root : Path
  maxBytes : Nat
  staleAfter : Duration

/-- A writer: the open staged file, its path, and the path of the entry. -/
structure StagedEntry where
  file : OpenFile
  staging : Path
  final : Path

namespace DirectoryStore

def create (root : Path) (maxBytes staleSeconds : Nat) :
    StateM Disk (Except Fault DirectoryStore) := do
  return (← Disk.makeDirs root).map fun () => ⟨root, maxBytes, ⟨staleSeconds, 0⟩⟩

def withStaleAfter (s : DirectoryStore) (t : Duration) : DirectoryStore :=
  { s with staleAfter := t }

/-- Opens the entry of a key and marks it as just used. That none stands there is no fault. -/
def read (s : DirectoryStore) (key : String) : StateM Disk (Except Fault (Option OpenFile)) := do
  match EntryPath.resolve s.root key with
  | .error e => pure (.error e)
  | .ok p =>
    match (← get).find p with
    | .ok (some .dir) => pure (.ok (some ⟨.dir, 0⟩))
    | .ok (some (.file id)) =>
      Disk.touch id
      pure (.ok (some ⟨.file id, 0⟩))
    | .ok none => pure (.ok none)
    | .error e => pure (if e.kind = .notFound then .ok none else .error e)

/-- Opens a writer for a key, with the directories above the entry made if they are missing. There
is none if something stands where it would stage. -/
def stage (s : DirectoryStore) (key : String) :
    StateM Disk (Except Fault (Option StagedEntry)) := do
  match EntryPath.resolve s.root key with
  | .error e => pure (.error e)
  | .ok p =>
    match ← Disk.makeDirs p.dropLast with
    | .error e => pure (.error e)
    | .ok () =>
      match ← Disk.createFile (EntryPath.staging p) with
      | .ok id => pure (.ok (some ⟨⟨.file id, 0⟩, EntryPath.staging p, p⟩))
      | .error e => pure (if e.kind = .alreadyExists then .ok none else .error e)

end DirectoryStore

namespace StagedEntry

def write (bytes : ByteArray) : StagedEntry × Disk → Except Fault Nat × (StagedEntry × Disk)
  | (w, d) =>
    let (reply, (file, d)) := OpenFile.write bytes (w.file, d)
    (reply, ({ w with file := file }, d))

def flush : StagedEntry × Disk → Except Fault Unit × (StagedEntry × Disk)
  | s => (.ok (), s)

/-- Moves the staged file to the entry's place. If that fails the staged file is removed, for it
would turn later writers away for ever; the second result is why that failed too. -/
def commit (w : StagedEntry) : StateM Disk (Except Fault Unit × Option Fault) := do
  match ← Disk.rename w.staging w.final with
  | .ok () => pure (.ok (), none)
  | .error e =>
    match ← Disk.removeFile w.staging with
    | .ok () => pure (.error e, none)
    | .error left => pure (.error e, some left)

/-- Removes the staged file. That it is gone already is as good. -/
def abort (w : StagedEntry) : StateM Disk (Except Fault Unit) := do
  match ← Disk.removeFile w.staging with
  | .ok () => pure (.ok ())
  | .error e => pure (if e.kind = .notFound then .ok () else .error e)

def discard (w : StagedEntry) : StateM Disk Unit := do
  let _ ← Disk.removeFile w.staging

end StagedEntry

end ImageCache
