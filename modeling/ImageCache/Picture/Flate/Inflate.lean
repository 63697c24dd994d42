import ImageCache.Picture.Flate.Block

namespace ImageCache.Flate

/-- Repeats `n` bytes from `distance` bytes back, which may be bytes that are being added. -/
def repeated (out : ByteArray) (distance n : Nat) : ByteArray :=
  Nat.fold n (fun _ _ out => out.push (Binary.byteAt out (out.size - distance))) out

/-- Reads symbols up to the end of the block or until the wanted bytes are there, `fuel` at most. -/
def coded (t : Tables) (wanted : Nat) : Nat → ByteArray → Taking ByteArray
  | 0, _ => Taking.wrong
  | fuel + 1, out => do
    if wanted ≤ out.size then return out
    else
      match ← token t with
      | .literal byte => coded t wanted fuel (out.push byte)
      | .stop => return out
      | .again length distance =>
        Taking.check (decide (distance ≤ out.size))
        coded t wanted fuel (repeated out distance length)

/-- Bits that the shortest block takes. -/
def shortestBlock : Nat := 10

def heads : Nat → Taking Unit
  | 0 => pure ()
  | fuel + 1 => do
    if (← Taking.left) < shortestBlock then pure ()
    else
      let next : Taking Unit := if ← Taking.flag then pure () else heads fuel
      match ← body with
      | .stored 0 => next
      | .fixed => if (← Taking.bits 7) = 0 then next else pure ()
      | .stored _ | .own _ => pure ()

/-- Looks at the heads of the next blocks within the piece of the data that is being read; `ends`
are the ends of all pieces. Bits that are not there are no fault. -/
def lookAhead (ends : List Nat) : Taking Unit := fun b =>
  let stop := (ends.find? fun e => decide (b.position ≤ 8 * e)).getD b.bytes.size
  match heads (8 * stop) ⟨b.bytes.extract 0 stop, b.position⟩ with
  | .error .wrong => .error .wrong
  | _ => .ok ((), b)

/-- Reads blocks until the wanted bytes are there, `fuel` at most. -/
def blocks (ends : List Nat) (wanted : Nat) : Nat → ByteArray → Taking ByteArray
  | 0, _ => Taking.wrong
  | fuel + 1, out => do
    let last ← Taking.flag
    let (out, ended) ← do
      match ← body with
      | .stored length =>
        let taken := min length (wanted - out.size)
        pure (out ++ (← Taking.block taken), taken == length)
      | .fixed => pure (← coded fixedTables wanted ((← Taking.left) + 1) out, false)
      | .own tables => pure (← coded tables wanted ((← Taking.left) + 1) out, false)
    if wanted ≤ out.size then
      if ended && !last then lookAhead ends
      return out
    else
      Taking.check !last
      blocks ends wanted fuel out

/-- The method is the only one there is, no preset dictionary is used, and the two bytes are a
multiple of 31. -/
def headIsRight (head : ByteArray) : Bool :=
  let method := Binary.byteAt head 0
  let flags := Binary.byteAt head 1
  method &&& 0x0f == 8 && method >>> 4 ≤ 7 && flags &&& 0x20 == 0 &&
    Binary.highFirst head 0 2 % 31 == 0

def stream (ends : List Nat) (wanted : Nat) : Taking ByteArray := do
  Taking.check (headIsRight (← Taking.block 2))
  blocks ends wanted ((← Taking.left) + 1) ByteArray.empty

def endsOf (pieces : List ByteArray) : List Nat :=
  (pieces.foldl (fun (ends, size) piece => ((size + piece.size) :: ends, size + piece.size))
    (([] : List Nat), 0)).1.reverse

/-- The first `wanted` bytes, or a few more, that a compressed stream stands for. -/
def inflate (pieces : List ByteArray) (wanted : Nat) : Option ByteArray :=
  let bytes := pieces.foldl (· ++ ·) ByteArray.empty
  match stream (endsOf pieces) wanted ⟨bytes, 0⟩ with
  | .ok (out, _) => some out
  | .error _ => none

end ImageCache.Flate
