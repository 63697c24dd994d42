import ImageCache.DirectoryStore.Basic

namespace ImageCache

structure FileInfo where
  path : Path
  length : Nat
  modified : Int

structure Census where
  committed : List FileInfo
  staged : List FileInfo

namespace Census

def empty : Census := ⟨[], []⟩

def add (c : Census) (f : FileInfo) : Census :=
  if EntryPath.isStaged f.path then { c with staged := c.staged ++ [f] }
  else { c with committed := c.committed ++ [f] }

/-- Adds the files among the nodes of a directory, and puts its directories before those that are
still to be visited. -/
def visit (d : Disk) : List (Path × Node) → Census × List Path → Census × List Path
  | [], s => s
  | (p, .dir) :: rest, (c, pending) => visit d rest (c, p :: pending)
  | (p, .file id) :: rest, (c, pending) =>
    visit d rest (c.add ⟨p, (d.file id).bytes.size, (d.file id).modified⟩, pending)

def gather (d : Disk) : Nat → List Path → Census → Except Fault Census
  | _, [], c => .ok c
  | 0, _ :: _, c => .ok c
  | fuel + 1, p :: pending, c =>
    match (Disk.list p d).1 with
    | .error e => .error e
    | .ok nodes =>
      let (c, pending) := visit d nodes (c, pending)
      gather d fuel pending c

/-- All files below a directory. No directory is visited twice, so there are no more visits than
nodes and the root. -/
def take (d : Disk) (root : Path) : Except Fault Census :=
  gather d (d.nodes.length + 1) [root] empty

def total (files : List FileInfo) : Nat := files.foldr (fun f sum => f.length + sum) 0

end Census

namespace DirectoryStore

def size (s : DirectoryStore) (d : Disk) : Except Fault Nat :=
  (Census.take d s.root).map fun c => Census.total c.committed

/-- How long ago a file was last used, in nanoseconds; no time at all if that is still to come. -/
def age (now : Int) (f : FileInfo) : Nat := (now - f.modified).toNat

def isStale (s : DirectoryStore) (now : Int) (f : FileInfo) : Bool :=
  Disk.span s.staleAfter ≤ age now f

def removeIfPresent (p : Path) : StateM Disk (Except Fault Unit) := do
  match ← Disk.removeFile p with
  | .ok () => pure (.ok ())
  | .error e => pure (if e.kind = .notFound then .ok () else .error e)

def removeStale (s : DirectoryStore) (now : Int) :
    List FileInfo → Nat → StateM Disk (Except Fault Nat)
  | [], removed => pure (.ok removed)
  | f :: rest, removed => do
    if s.isStale now f then
      match ← removeIfPresent f.path with
      | .error e => pure (.error e)
      | .ok () => s.removeStale now rest (removed + 1)
    else s.removeStale now rest removed

/-- Removes files from the front until those that are left have no more than `limit` bytes. -/
def removeOldest (limit : Nat) :
    List FileInfo → (total removed : Nat) → StateM Disk (Except Fault Nat)
  | [], _, removed => pure (.ok removed)
  | f :: rest, total, removed => do
    if total ≤ limit then pure (.ok removed)
    else
      match ← removeIfPresent f.path with
      | .error e => pure (.error e)
      | .ok () => removeOldest limit rest (total - f.length) (removed + 1)

/-- The oldest file first; files of one time stay in order. -/
def byAge (files : List FileInfo) : List FileInfo :=
  files.mergeSort fun a b => decide (a.modified ≤ b.modified)

/-- Removes staged files that were left alone for long, then committed ones, the least recently used
first, until those that stay keep to the limit. Tells how many files went. -/
def prune (s : DirectoryStore) : StateM Disk (Except Fault Nat) := do
  let d ← get
  match Census.take d s.root with
  | .error e => pure (.error e)
  | .ok c =>
    match ← s.removeStale d.now c.staged 0 with
    | .error e => pure (.error e)
    | .ok removed =>
      removeOldest s.maxBytes (byAge c.committed) (Census.total c.committed) removed

end DirectoryStore

end ImageCache
