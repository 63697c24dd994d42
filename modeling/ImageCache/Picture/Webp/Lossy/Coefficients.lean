import ImageCache.Picture.Webp.Lossy.Modes

namespace ImageCache.Webp.Lossy

/-- Tokens 2 to 4 are sizes of coefficients, and from 5 on there are more bits. Token 0 is a zero
and 1 a one. -/
def tokenTree : Tree :=
  .node 1 (.leaf 0) (.node 2 (.leaf 1) (.node 3
    (.node 4 (.leaf 2) (.node 5 (.leaf 3) (.leaf 4)))
    (.node 6
      (.node 7 (.leaf 5) (.leaf 6))
      (.node 8
        (.node 9 (.leaf 7) (.leaf 8))
        (.node 10 (.leaf 9) (.leaf 10))))))

def furtherBits : Nat → List Nat
  | 5 => [159]
  | 6 => [165, 145]
  | 7 => [173, 148, 140]
  | 8 => [176, 155, 140, 135]
  | 9 => [180, 157, 141, 134, 130]
  | 10 => [254, 254, 243, 230, 196, 177, 153, 140, 133, 130, 129]
  | _ => []

def bands : List Nat := [0, 1, 2, 3, 6, 4, 5, 6, 6, 6, 6, 6, 6, 6, 6, 7]

/-- Reads the tokens of a block through the given bands, up to an end that may stand before every
token but those behind a zero. `before` is 0 behind a zero, 1 behind a one, and else 2. Tells
whether there are any. -/
def tokens (table : Array Nat) (kind : Nat) :
    (bands : List Nat) → (before : Nat) → (zero : Bool) → Deciding Bool
  | [], _, _ => pure false
  | band :: rest, before, zero => do
    let probability (bit : Nat) : Nat := tokenProbability table kind band before bit
    let goesOn ← if zero then pure true else Deciding.bit (probability 0)
    if goesOn then
      let token ← tokenTree.read probability
      if token = 0 then
        let _more ← tokens table kind rest 0 true
      else
        let _further ← Deciding.digits (furtherBits token) 0
        let _sign ← Deciding.flag
        let _more ← tokens table kind rest (min token 2) false
      return true
    else return false

/-- Reads a row of blocks; a block has coefficients more likely if its neighbours have. -/
def rowTokens (table : Array Nat) (kind : Nat) (bands : List Nat) :
    (above : List Bool) → (left : Bool) → Deciding (List Bool)
  | [], _ => pure []
  | above :: rest, left => do
    let any ← tokens table kind bands (above.toNat + left.toNat) false
    return any :: (← rowTokens table kind bands rest any)

def squareTokens (table : Array Nat) (kind : Nat) (bands : List Nat) :
    (above left : List Bool) → Deciding (List Bool × List Bool)
  | above, [] => pure (above, [])
  | above, left :: rest => do
    let row ← rowTokens table kind bands above left
    let (lowest, right) ← squareTokens table kind bands row rest
    return (lowest, row.getLastD left :: right)

def planesTokens (table : Array Nat) :
    (above left : List (List Bool)) → Deciding (List (List Bool) × List (List Bool))
  | above :: moreAbove, left :: moreLeft => do
    let (below, right) ← squareTokens table 2 bands above left
    let (moreBelow, moreRight) ← planesTokens table moreAbove moreLeft
    return (below :: moreBelow, right :: moreRight)
  | _, _ => pure ([], [])

/-- Reads the coefficients of a square, and gives its lower and its right edge. -/
def coefficients (table : Array Nat) (m : Modes) (above left : Edge) :
    Deciding (Edge × Edge) := do
  let (firstsBelow, firstsRight) ←
    if m.divided then pure (above.firsts, left.firsts)
    else
      let any ← tokens table 1 bands (above.firsts.toNat + left.firsts.toNat) false
      pure (any, any)
  let (lumaBelow, lumaRight) ←
    if m.divided then squareTokens table 3 bands above.luma left.luma
    else squareTokens table 0 (bands.drop 1) above.luma left.luma
  let (chromaBelow, chromaRight) ← planesTokens table above.chroma left.chroma
  return (⟨m.below, firstsBelow, lumaBelow, chromaBelow⟩,
    ⟨m.right, firstsRight, lumaRight, chromaRight⟩)

/-- The edges of a square without coefficients. First coefficients count as before if the square
has none of its own kind. -/
def withoutCoefficients (m : Modes) (above left : Edge) : Edge × Edge :=
  ({ Edge.none with modes := m.below, firsts := m.divided && above.firsts },
    { Edge.none with modes := m.right, firsts := m.divided && left.firsts })

end ImageCache.Webp.Lossy
