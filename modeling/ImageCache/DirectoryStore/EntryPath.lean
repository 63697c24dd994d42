import ImageCache.Disk.Basic

namespace ImageCache.EntryPath

def suffix : String := ".tmp"

def split : List Char → List (List Char)
  | [] => [[]]
  | c :: rest =>
    if c = '/' then [] :: split rest
    else
      match split rest with
      | [] => [[c]]
      | part :: parts => (c :: part) :: parts

/-- The names of a relative path. Empty parts and single dots say nothing. -/
def names (key : String) : List String :=
  ((split key.toList).map String.ofList).filter fun part => part ≠ "" ∧ part ≠ "."

def step (p : Path) (name : String) : Path :=
  if name = ".." then p.dropLast else p ++ [name]

def follow (p : Path) (names : List String) : Path := names.foldl step p

def isStaged (p : Path) : Bool :=
  suffix.toList.isSuffixOf ((p.getLast?.getD "").toList)

/-- The path of the entry of a key: one that leads strictly below the root. Keys that end like a
staged file are refused, so that the name of an entry tells that it is committed. -/
def resolve (root : Path) (key : String) : Except Fault Path :=
  if key = "" ∨ suffix.toList.isSuffixOf key.toList then .error .invalidKey
  else if key.toList.head? = some '/' then .error .invalidPath
  else
    let p := follow root (names key)
    if root.isPrefixOf p ∧ p ≠ root then .ok p else .error .outsideRoot

def staging (p : Path) : Path :=
  p.dropLast ++ [(p.getLast?.getD "") ++ suffix]

end ImageCache.EntryPath
