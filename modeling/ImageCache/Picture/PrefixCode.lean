import ImageCache.Picture.Bits

namespace ImageCache

/-- A canonical prefix code: shorter words come first, words of one length follow the order of the
symbols, and a word is read highest bit first. -/
structure PrefixCode where
  /-- How many words there are of each length, from one bit on. -/
  counts : List Nat
  /-- The symbols in the order of their words. -/
  symbols : Array Nat

namespace PrefixCode

def longest : Nat := 15

def ofLength (lengths : Array Nat) (n : Nat) : List Nat :=
  (List.range lengths.size).filter fun symbol => lengths.getD symbol 0 == n

/-- The part of all words that is used up, in units of the longest. -/
def space (lengths : Array Nat) : Nat :=
  lengths.foldl (fun sum n => if n = 0 then sum else sum + 1 <<< (longest - n)) 0

/-- Every sequence of bits begins with a word, and only with one. -/
def isComplete (lengths : Array Nat) : Bool := space lengths == 1 <<< longest

def ofLengths (lengths : Array Nat) : PrefixCode :=
  let groups := (List.range longest).map fun n => ofLength lengths (n + 1)
  ⟨groups.map List.length, groups.flatten.toArray⟩

/-- Reads a word bit by bit. `word` are the bits so far, `first` is the first word of their length,
and `index` counts the words that are shorter. -/
def walk (symbols : Array Nat) : List Nat → (word first index : Nat) → Taking Nat
  | [], _, _, _ => Taking.wrong
  | count :: counts, word, first, index => do
    let word := 2 * word + (← Taking.bit)
    if word - first < count then
      match symbols[index + (word - first)]? with
      | some symbol => pure symbol
      | none => Taking.wrong
    else walk symbols counts word (2 * (first + count)) (index + count)

def symbol (c : PrefixCode) : Taking Nat := walk c.symbols c.counts 0 0 0

end PrefixCode

end ImageCache
