import ImageCache.Picture.Webp.Lossy.Arithmetic
import ImageCache.Picture.Webp.Lossy.Probabilities

namespace ImageCache.Webp.Lossy

/-- An edge of a square, towards the squares below it or to the right of it. -/
structure Edge where
  modes : List Nat
  /-- Whether there are coefficients: first ones of all blocks, then luma blocks, two blocks of the
  one chroma plane and two of the other. -/
  firsts : Bool
  luma : List Bool
  chroma : List (List Bool)

/-- Blocks outside the frame count as predicted from the average of their surroundings. -/
def averageMode : Nat := 0

def Edge.none : Edge where
  modes := List.replicate 4 averageMode
  firsts := false
  luma := List.replicate 4 false
  chroma := List.replicate 2 (List.replicate 2 false)

/-- The mode of a block: from the average, from the change, from above, from the left, and along
six slanting directions. -/
def modeTree : Tree :=
  .node 0 (.leaf 0) (.node 1 (.leaf 1) (.node 2 (.leaf 2)
    (.node 3
      (.node 4 (.leaf 3) (.node 5 (.leaf 4) (.leaf 5)))
      (.node 6 (.leaf 6) (.node 7 (.leaf 7) (.node 8 (.leaf 8) (.leaf 9)))))))

def blockMode (above left : Nat) : Deciding Nat :=
  modeTree.read fun i => modeProbabilities.getD ((above * 10 + left) * 9 + i) 0

def rowModes : List Nat → (left : Nat) → Deciding (List Nat)
  | [], _ => pure []
  | above :: rest, left => do
    let mode ← blockMode above left
    return mode :: (← rowModes rest mode)

/-- The modes of all blocks of a square: those of the lowest row, and the last of each row. -/
def squareModes : (above left : List Nat) → Deciding (List Nat × List Nat)
  | above, [] => pure (above, [])
  | above, left :: rest => do
    let row ← rowModes above left
    let (lowest, right) ← squareModes row rest
    return (lowest, row.getLastD left :: right)

/-- Modes for a whole square, or 10 if each block has its own. -/
def lumaTree : Tree :=
  .node 0 (.leaf 10) (.node 1 (.node 2 (.leaf 0) (.leaf 2)) (.node 3 (.leaf 3) (.leaf 1)))

def lumaProbabilities : List Nat := [145, 156, 163, 128]

def chromaTree : Tree :=
  .node 0 (.leaf 0) (.node 1 (.leaf 2) (.node 2 (.leaf 3) (.leaf 1)))

def chromaProbabilities : List Nat := [142, 114, 183]

def segmentTree : Tree :=
  .node 0 (.node 1 (.leaf 0) (.leaf 1)) (.node 2 (.leaf 2) (.leaf 3))

structure Modes where
  skipped : Bool
  divided : Bool
  below : List Nat
  right : List Nat

/-- Reads the modes of a square. `segments` are the probabilities of its segment, if it tells one,
and `skipping` is that of having coefficients, if some squares have none. -/
def Modes.read (segments : Option (List Nat)) (skipping : Option Nat) (above left : Edge) :
    Deciding Modes := do
  if let some probabilities := segments then
    let _segment ← segmentTree.read fun i => probabilities.getD i 0
  let skipped ← match skipping with
    | some p => Deciding.bit p
    | none => pure false
  let luma ← lumaTree.read fun i => lumaProbabilities.getD i 0
  let divided := luma == 10
  let (below, right) ←
    if divided then squareModes above.modes left.modes
    else pure (List.replicate 4 luma, List.replicate 4 luma)
  let _chroma ← chromaTree.read fun i => chromaProbabilities.getD i 0
  return ⟨skipped, divided, below, right⟩

end ImageCache.Webp.Lossy
