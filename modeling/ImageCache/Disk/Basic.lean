import ImageCache.Fault

namespace ImageCache

/-- Names from the top directory down. -/
abbrev Path := List String

abbrev FileId := Nat

inductive Node where
  | dir
  | file (id : FileId)
deriving DecidableEq, Repr

structure FileData where
  bytes : ByteArray
  modified : Int
deriving Inhabited

/-- A file system as far as a store can see it. The bytes of a file belong to the file and not to
its name, so a file that is open stays readable when its name is removed or given to another. Time
moves on with every time stamp. -/
structure Disk where
  /-- What stands at each path; the top directory stands at the empty one and is not listed. -/
  nodes : List (Path × Node)
  /-- All files there ever were, by number. -/
  files : Array FileData
  now : Int

structure Duration where
  seconds : Nat
  nanoseconds : Nat
deriving DecidableEq, Repr

instance (n : Nat) : OfNat Duration n := ⟨⟨n, 0⟩⟩

namespace Disk

def blank : Disk := ⟨[], #[], 0⟩

def second : Int := 1000000000

def span (t : Duration) : Nat := second.toNat * t.seconds + t.nanoseconds

def wait (d : Disk) (nanoseconds : Nat) : Disk := { d with now := d.now + nanoseconds }

def node? (d : Disk) (p : Path) : Option Node :=
  if p = [] then some .dir else d.nodes.lookup p

def nameLimit : Nat := 255

def pathLimit : Nat := 4095

def pathSize (p : Path) : Nat := p.foldr (fun name sum => name.utf8ByteSize + 1 + sum) 0

/-- Follows names from a directory down. Every name but the last has to be that of a directory. -/
def walk (d : Disk) (above : Path) : List String → Except SystemFault (Option Node)
  | [] => .ok (d.node? above)
  | name :: rest =>
    if nameLimit < name.utf8ByteSize then .error .nameTooLong
    else
      match d.node? (above ++ [name]), rest with
      | found, [] => .ok found
      | some .dir, rest => d.walk (above ++ [name]) rest
      | some (.file _), _ => .error .notADirectory
      | none, _ => .error .noEntry

def find (d : Disk) (p : Path) : Except Fault (Option Node) :=
  if p.any (·.contains '\x00') then .error .nulInName
  else if pathLimit < pathSize p then .error (.system .nameTooLong)
  else (d.walk [] p).mapError .system

def isDir (d : Disk) (p : Path) : Bool :=
  match d.find p with
  | .ok (some .dir) => true
  | _ => false

def inside (d : Disk) (p : Path) : List (Path × Node) :=
  d.nodes.filter fun (q, _) => q ≠ [] ∧ q.dropLast = p

def file (d : Disk) (id : FileId) : FileData := d.files.getD id default

/-- A time later than all before it. -/
def stamp : StateM Disk Int := fun d => (d.now + 1, { d with now := d.now + 1 })

def setFile (d : Disk) (id : FileId) (f : FileData) : Disk :=
  { d with files := d.files.setIfInBounds id f }

def touch (id : FileId) : StateM Disk Unit := do
  let t ← stamp
  modify fun d => d.setFile id { d.file id with modified := t }

def link (d : Disk) (p : Path) (n : Node) : Disk := { d with nodes := d.nodes ++ [(p, n)] }

def unlink (d : Disk) (p : Path) : Disk := { d with nodes := d.nodes.filter (·.1 ≠ p) }

def relocate (d : Disk) (source target : Path) : Disk :=
  { d with nodes := d.nodes.map fun (q, n) =>
      if source.isPrefixOf q then (target ++ q.drop source.length, n) else (q, n) }

def prune (d : Disk) (p : Path) : Disk :=
  { d with nodes := d.nodes.filter fun (q, _) => !p.isPrefixOf q }

end Disk

end ImageCache
