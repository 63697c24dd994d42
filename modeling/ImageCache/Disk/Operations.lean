import ImageCache.Disk.Basic

namespace ImageCache.Disk

def makeDir (p : Path) : StateM Disk (Except Fault Unit) := fun d =>
  match d.find p with
  | .error e => (.error e, d)
  | .ok (some _) => (.error (.system .exists), d)
  | .ok none => (.ok (), d.link p .dir)

/-- Makes a directory, given by its names from the last to the first, and the directories above it
that are missing. A directory that is there already is as good. -/
def makeDirsUp : List String → StateM Disk (Except Fault Unit)
  | [] => pure (.ok ())
  | name :: above => do
    let p := (name :: above).reverse
    match ← makeDir p with
    | .ok () => pure (.ok ())
    | .error e =>
      if e.kind ≠ .notFound then pure (if (← get).isDir p then .ok () else .error e)
      else
        match ← makeDirsUp above with
        | .error e => pure (.error e)
        | .ok () =>
          match ← makeDir p with
          | .ok () => pure (.ok ())
          | .error e => pure (if (← get).isDir p then .ok () else .error e)

def makeDirs (p : Path) : StateM Disk (Except Fault Unit) := makeDirsUp p.reverse

def createFile (p : Path) : StateM Disk (Except Fault FileId) := fun d =>
  match d.find p with
  | .error e => (.error e, d)
  | .ok (some _) => (.error (.system .exists), d)
  | .ok none =>
    let (t, d) := stamp d
    (.ok d.files.size, { d.link p (.file d.files.size) with files := d.files.push ⟨.empty, t⟩ })

def removeFile (p : Path) : StateM Disk (Except Fault Unit) := fun d =>
  match d.find p with
  | .error e => (.error e, d)
  | .ok none => (.error (.system .noEntry), d)
  | .ok (some .dir) => (.error (.system .isADirectory), d)
  | .ok (some (.file _)) => (.ok (), d.unlink p)

def replaceable (d : Disk) (moved : Node) (target : Path) : Option Node → Except Fault Unit
  | none => .ok ()
  | some .dir =>
    match moved with
    | .file _ => .error (.system .isADirectory)
    | .dir => if (d.inside target).isEmpty then .ok () else .error (.system .notEmpty)
  | some (.file _) =>
    match moved with
    | .file _ => .ok ()
    | .dir => .error (.system .notADirectory)

def rename (source target : Path) : StateM Disk (Except Fault Unit) := fun d =>
  match d.find source, d.find target with
  | .error e, _ => (.error e, d)
  | .ok none, _ => (.error (.system .noEntry), d)
  | .ok (some _), .error e => (.error e, d)
  | .ok (some moved), .ok there =>
    match d.replaceable moved target there with
    | .error e => (.error e, d)
    | .ok () => (.ok (), (d.unlink target).relocate source target)

def list (p : Path) : StateM Disk (Except Fault (List (Path × Node))) := fun d =>
  match d.find p with
  | .error e => (.error e, d)
  | .ok none => (.error (.system .noEntry), d)
  | .ok (some (.file _)) => (.error (.system .notADirectory), d)
  | .ok (some .dir) => (.ok (d.inside p), d)

end ImageCache.Disk
