import ImageCache.DirectoryStore.Prune
import ImageCache.Fetch.Collaborator
import ImageCache.Fetch.Event

namespace ImageCache.DirectoryStore

variable {W : Type}

/-- Commits a writer and notes a staged file that stayed behind. -/
def commit (disk : Part W Disk) (note : Notice → StateM W Unit) (w : StagedEntry) :
    StateM W (Except Fault Unit) := do
  match ← disk.run w.commit with
  | (result, none) => pure result
  | (result, some left) =>
    note (.stagedLeft left)
    pure result

def maintain (s : DirectoryStore) (disk : Part W Disk) (note : Notice → StateM W Unit) :
    StateM W Maintenance := do
  match ← disk.run s.prune with
  | .ok removed =>
    note (.pruned removed)
    pure (.ended (.ok ()))
  | .error e => pure (.ended (.error e))

def byteStore (s : DirectoryStore) (disk : Part W Disk) (note : Notice → StateM W Unit) :
    ByteStore W OpenFile StagedEntry where
  read key := disk.run (s.read key)
  stage key := disk.run (s.stage key)
  entry :=
    { read := fun n => disk.runWith (OpenFile.read n)
      horizon := fun (f, w) => OpenFile.horizon (f, disk.get w)
      rewind := disk.runWith OpenFile.rewind }
  writer :=
    { write := fun bytes => disk.runWith (StagedEntry.write bytes)
      flush := disk.runWith StagedEntry.flush
      horizon := fun _ => 0 }
  commit := commit disk note
  abort w := disk.run w.abort
  maintain := s.maintain disk note

end ImageCache.DirectoryStore
