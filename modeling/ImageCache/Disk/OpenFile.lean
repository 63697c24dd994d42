import ImageCache.Disk.Basic
import ImageCache.Fetch.Transfer
import ImageCache.Reading.Basic

namespace ImageCache

structure OpenFile where
  node : Node
  position : Nat

namespace OpenFile

def read (n : Nat) : OpenFile × Disk → Except Fault ByteArray × (OpenFile × Disk)
  | (f, d) =>
    match f.node with
    | .dir => (.error (.system .isADirectory), (f, d))
    | .file id =>
      let bytes := (d.file id).bytes.extract f.position (f.position + n)
      (.ok bytes, ({ f with position := f.position + bytes.size }, d))

def horizon : OpenFile × Disk → Nat
  | (f, d) =>
    match f.node with
    | .dir => 0
    | .file id => (d.file id).bytes.size - f.position

def rewind : OpenFile × Disk → Except Fault Unit × (OpenFile × Disk)
  | (f, d) => (.ok (), ({ f with position := 0 }, d))

def reader : SeekableReader (OpenFile × Disk) := ⟨⟨read, horizon⟩, rewind⟩

/-- Bytes put over others from a position on. A gap before them is filled with zeros. -/
def overwrite (old : ByteArray) (position : Nat) (bytes : ByteArray) : ByteArray :=
  let gap := (List.replicate (position - old.size) 0).toByteArray
  old.extract 0 position ++ gap ++ bytes ++ old.extract (position + bytes.size) old.size

/-- All bytes offered are taken. Nothing happens when none are. -/
def write (bytes : ByteArray) : OpenFile × Disk → Except Fault Nat × (OpenFile × Disk)
  | (f, d) =>
    match f.node with
    | .dir => (.error (.system .isADirectory), (f, d))
    | .file id =>
      if bytes.size = 0 then (.ok 0, (f, d))
      else
        let (t, d) := Disk.stamp d
        let data : FileData := ⟨overwrite (d.file id).bytes f.position bytes, t⟩
        (.ok bytes.size, ({ f with position := f.position + bytes.size }, d.setFile id data))

end OpenFile

end ImageCache
