namespace ImageCache.Text.Hex

def digit (n : UInt8) : Char :=
  if n < 10 then Char.ofNat (48 + n.toNat) else Char.ofNat (87 + n.toNat)

def pair (b : UInt8) : List Char := [digit (b >>> 4), digit (b &&& 15)]

def encode (bytes : List UInt8) : String := String.ofList (bytes.flatMap pair)

/-- The value of a digit, in either case. -/
def value? (c : Char) : Option UInt8 :=
  let n := c.toNat
  if 48 ≤ n ∧ n ≤ 57 then some (n - 48).toUInt8
  else if 97 ≤ n ∧ n ≤ 102 then some (n - 87).toUInt8
  else if 65 ≤ n ∧ n ≤ 70 then some (n - 55).toUInt8
  else none

def decodeOnto (out : ByteArray) : List Char → Option ByteArray
  | [] => some out
  | [_] => none
  | h :: l :: rest =>
    match value? h, value? l with
    | some a, some b => decodeOnto (out.push (a <<< 4 ||| b)) rest
    | _, _ => none

def decode? (s : String) : Option ByteArray := decodeOnto ByteArray.empty s.toList

end ImageCache.Text.Hex
