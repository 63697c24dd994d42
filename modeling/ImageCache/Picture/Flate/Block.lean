import ImageCache.Picture.PrefixCode

namespace ImageCache.Flate

structure Tables where
  literals : PrefixCode
  distances : PrefixCode

/-- Base value and number of further bits of each length, from the symbol 257 on. -/
def lengthSteps : Array (Nat × Nat) := #[
  (3, 0), (4, 0), (5, 0), (6, 0), (7, 0), (8, 0), (9, 0), (10, 0), (11, 1), (13, 1), (15, 1),
  (17, 1), (19, 2), (23, 2), (27, 2), (31, 2), (35, 3), (43, 3), (51, 3), (59, 3), (67, 4),
  (83, 4), (99, 4), (115, 4), (131, 5), (163, 5), (195, 5), (227, 5), (258, 0)]

/-- Base value and number of further bits of each distance. -/
def distanceSteps : Array (Nat × Nat) := #[
  (1, 0), (2, 0), (3, 0), (4, 0), (5, 1), (7, 1), (9, 2), (13, 2), (17, 3), (25, 3), (33, 4),
  (49, 4), (65, 5), (97, 5), (129, 6), (193, 6), (257, 7), (385, 7), (513, 8), (769, 8),
  (1025, 9), (1537, 9), (2049, 10), (3073, 10), (4097, 11), (6145, 11), (8193, 12), (12289, 12),
  (16385, 13), (24577, 13)]

def stepped (steps : Array (Nat × Nat)) (i : Nat) : Taking Nat :=
  match steps[i]? with
  | some (base, more) => return base + (← Taking.bits more)
  | none => Taking.wrong

def endOfBlock : Nat := 256

inductive Token where
  | literal (byte : UInt8)
  /-- So many bytes again, from so many bytes back. -/
  | again (length distance : Nat)
  | stop

def token (t : Tables) : Taking Token := do
  let symbol ← t.literals.symbol
  if symbol < endOfBlock then return .literal symbol.toUInt8
  else if symbol = endOfBlock then return .stop
  else
    let length ← stepped lengthSteps (symbol - 257)
    return .again length (← stepped distanceSteps (← t.distances.symbol))

def fixedTables : Tables where
  literals := PrefixCode.ofLengths <|
    Array.replicate 144 8 ++ Array.replicate 112 9 ++ Array.replicate 24 7 ++ Array.replicate 8 8
  distances := PrefixCode.ofLengths (Array.replicate 30 5)

/-- The order in which the lengths of the code of lengths are given. -/
def lengthOrder : List Nat := [16, 17, 18, 0, 8, 7, 9, 6, 10, 5, 11, 4, 12, 3, 13, 2, 14, 1, 15]

/-- Reads `n` lengths, `fuel` symbols at most. Some symbols repeat the last length or a zero. -/
def lengths (c : PrefixCode) (n : Nat) : Nat → Array Nat → Taking (Array Nat)
  | 0, _ => Taking.wrong
  | fuel + 1, out => do
    if n ≤ out.size then
      Taking.check (out.size == n)
      return out
    else
      let run ← do
        match ← c.symbol with
        | 16 =>
          match out.back? with
          | some last => pure (List.replicate (3 + (← Taking.bits 2)) last)
          | none => Taking.wrong
        | 17 => pure (List.replicate (3 + (← Taking.bits 3)) 0)
        | 18 => pure (List.replicate (11 + (← Taking.bits 7)) 0)
        | length => pure [length]
      lengths c n fuel (out ++ run)

/-- Distances may have no word or a single one of one bit; any other code is complete. -/
def distancesAreRight (lengths : Array Nat) : Bool :=
  PrefixCode.isComplete lengths || lengths.all (· == 0) ||
    (lengths.filter (· ≠ 0) == #[1])

def ownTables : Taking Tables := do
  let literals := 257 + (← Taking.bits 5)
  let distances := 1 + (← Taking.bits 5)
  let given := 4 + (← Taking.bits 4)
  Taking.check (literals ≤ 286 && distances ≤ 30)
  let words ← (lengthOrder.take given).mapM fun symbol => return (symbol, ← Taking.bits 3)
  let ofLengths := words.foldl (fun out (symbol, n) => out.setIfInBounds symbol n)
    (Array.replicate 19 0)
  Taking.check (PrefixCode.isComplete ofLengths)
  let all ← lengths (PrefixCode.ofLengths ofLengths) (literals + distances)
    (literals + distances + 1) #[]
  let ofLiterals := all.extract 0 literals
  let ofDistances := all.extract literals all.size
  Taking.check (ofLiterals.getD endOfBlock 0 != 0 && PrefixCode.isComplete ofLiterals &&
    distancesAreRight ofDistances)
  return ⟨PrefixCode.ofLengths ofLiterals, PrefixCode.ofLengths ofDistances⟩

inductive Body where
  | stored (length : Nat)
  | fixed
  | own (tables : Tables)

/-- The head of a block. A stored length comes with its complement. -/
def body : Taking Body := do
  match ← Taking.bits 2 with
  | 0 =>
    let head ← Taking.block 4
    let length := Binary.lowFirst head 0 2
    Taking.check (length + Binary.lowFirst head 2 2 == 65535)
    return .stored length
  | 1 => return .fixed
  | 2 => return .own (← ownTables)
  | _ => Taking.wrong

end ImageCache.Flate
