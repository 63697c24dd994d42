import ImageCache.Picture.PrefixCode

namespace ImageCache.Webp.Lossless

/-- A code. If there is a single symbol its word has no bits. -/
inductive Symbols where
  | single (symbol : Nat)
  | code (c : PrefixCode)

namespace Symbols

def read : Symbols → Taking Nat
  | single symbol => pure symbol
  | code c => c.symbol

/-- The code with words of these lengths. It has symbols, and no sequence of bits is left out. -/
def ofLengths (lengths : Array Nat) : Taking Symbols :=
  match (List.range lengths.size).filter fun i => lengths.getD i 0 != 0 with
  | [] => Taking.wrong
  | [symbol] => pure (single symbol)
  | _ => do
    Taking.check (PrefixCode.isComplete lengths)
    return code (PrefixCode.ofLengths lengths)

def pair (first second : Nat) : Symbols := code ⟨[2], #[first, second]⟩

def readFew (size : Nat) : Taking Symbols := do
  let two ← Taking.flag
  let first ← Taking.bits (if ← Taking.flag then 8 else 1)
  Taking.check (decide (first < size))
  if two then
    let second ← Taking.bits 8
    Taking.check (decide (second < size))
    return pair first second
  else return single first

/-- The order in which the lengths of the code of lengths are given. -/
def lengthOrder : List Nat := [17, 18, 0, 1, 2, 3, 4, 5, 16, 6, 7, 8, 9, 10, 11, 12, 13, 14, 15]

/-- The length that is repeated if there was none but zero. -/
def firstLength : Nat := 8

/-- Reads the lengths of `size` words, `fuel` symbols at most. Some symbols repeat the last length
that is not zero, or a zero. Lengths that are not given are zero. -/
def readLengths (c : Symbols) (size : Nat) : (fuel : Nat) → (last : Nat) → Array Nat →
    Taking (Array Nat)
  | 0, _, out => pure (out ++ Array.replicate (size - out.size) 0)
  | fuel + 1, last, out =>
    if size ≤ out.size then pure out
    else do
      let symbol ← c.read
      if symbol < 16 then
        readLengths c size fuel (if symbol = 0 then last else symbol) (out.push symbol)
      else
        let (n, length) ← match symbol with
          | 16 => pure (3 + (← Taking.bits 2), last)
          | 17 => pure (3 + (← Taking.bits 3), 0)
          | _ => pure (11 + (← Taking.bits 7), 0)
        Taking.check (decide (out.size + n ≤ size))
        readLengths c size fuel last (out ++ Array.replicate n length)

def lengthCount (size : Nat) : Taking Nat := do
  if ← Taking.flag then
    let n ← Taking.bits (2 + 2 * (← Taking.bits 3))
    Taking.check (decide (2 + n ≤ size))
    return 2 + n
  else return size

def readMany (size : Nat) : Taking Symbols := do
  let given := 4 + (← Taking.bits 4)
  let words ← (lengthOrder.take given).mapM fun symbol => return (symbol, ← Taking.bits 3)
  let ofLengths ← ofLengths <| words.foldl (fun out (symbol, n) => out.setIfInBounds symbol n)
    (Array.replicate 19 0)
  Symbols.ofLengths (← readLengths ofLengths size (← lengthCount size) firstLength #[])

def readCode (size : Nat) : Taking Symbols := do
  if ← Taking.flag then readFew size else readMany size

end Symbols

end ImageCache.Webp.Lossless
