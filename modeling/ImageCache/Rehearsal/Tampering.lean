import ImageCache.DirectoryStore.EntryPath
import ImageCache.Disk.Operations

namespace ImageCache.Disk

def below (root : Path) (text : String) : Path := root ++ EntryPath.names text

def put (p : Path) (bytes : ByteArray) : StateM Disk (Except Fault Unit) := do
  match ← makeDirs p.dropLast with
  | .error e => pure (.error e)
  | .ok () =>
    let fill (id : FileId) : StateM Disk Unit := do
      let t ← stamp
      modify (·.setFile id ⟨bytes, t⟩)
    match (← get).find p with
    | .error e => pure (.error e)
    | .ok (some .dir) => pure (.error (.system .isADirectory))
    | .ok (some (.file id)) =>
      fill id
      pure (.ok ())
    | .ok none =>
      match ← createFile p with
      | .error e => pure (.error e)
      | .ok id =>
        fill id
        pure (.ok ())

def removeTree (p : Path) : StateM Disk (Except Fault Unit) := fun d =>
  match d.find p with
  | .error e => (.error e, d)
  | .ok none => (.error (.system .noEntry), d)
  | .ok (some _) => (.ok (), d.prune p)

def backdate (p : Path) (seconds : Int) : StateM Disk (Except Fault Unit) := do
  match (← get).find p with
  | .error e => pure (.error e)
  | .ok none => pure (.error (.system .noEntry))
  | .ok (some .dir) => pure (.ok ())
  | .ok (some (.file id)) =>
    let t ← stamp
    modify fun d => d.setFile id { d.file id with modified := t - seconds * second }
    pure (.ok ())

def nodesByPath (d : Disk) : List (Path × Node) :=
  d.nodes.mergeSort fun a b => decide ("/".intercalate a.1 ≤ "/".intercalate b.1)

/-- Stamps every file afresh that stands where none stood, or whose time has changed, in the order
of their paths. -/
def restamp (before : Disk) (after : Disk) : Disk :=
  after.nodesByPath.foldl (fun d (p, n) =>
    match n, before.node? p with
    | .dir, _ => d
    | .file id, some (.file old) =>
      if (before.file old).modified = (after.file id).modified then d else (touch id d).2
    | .file id, _ => (touch id d).2) after

def filesBelow (d : Disk) (root : Path) : List (Path × Nat) :=
  let files := d.nodes.filterMap fun (p, n) =>
    match n with
    | .file id =>
      if root.isPrefixOf p then some (p.drop root.length, d.file id) else none
    | .dir => none
  (files.mergeSort fun a b => decide (a.2.modified ≤ b.2.modified)).map fun (p, f) =>
    (p, f.bytes.size)

def dirsBelow (d : Disk) (root : Path) : List Path :=
  d.nodes.filterMap fun (p, n) =>
    if n = .dir ∧ root.isPrefixOf p ∧ p ≠ root then some (p.drop root.length) else none

end ImageCache.Disk
