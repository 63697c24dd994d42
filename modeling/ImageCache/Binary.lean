namespace ImageCache.Binary

def byteAt (bytes : ByteArray) (i : Nat) : UInt8 :=
  if h : i < bytes.size then bytes[i] else 0

/-- The number in the `n` bytes from `i` on, the highest first. Bytes beyond the end count as zero.
-/
def highFirst (bytes : ByteArray) (i : Nat) : (n : Nat) → Nat
  | 0 => 0
  | n + 1 => highFirst bytes i n * 256 + (byteAt bytes (i + n)).toNat

def lowFirst (bytes : ByteArray) (i : Nat) : (n : Nat) → Nat
  | 0 => 0
  | n + 1 => (byteAt bytes i).toNat + 256 * lowFirst bytes (i + 1) n

def spells (bytes : ByteArray) (i : Nat) (text : String) : Bool :=
  (bytes.extract i (i + text.utf8ByteSize)).toList == text.toUTF8.toList

end ImageCache.Binary
