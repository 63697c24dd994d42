import ImageCache.Picture.Webp.Lossy.Coefficients
import ImageCache.Size

namespace ImageCache.Webp.Lossy

def headLength : Nat := 10

/-- The size of a key frame: three magic bytes, and each side in fourteen bits. -/
def sizeIn (bytes : ByteArray) : Option Size :=
  let width := Binary.lowFirst bytes 6 2 % 16384
  let height := Binary.lowFirst bytes 8 2 % 16384
  if Binary.byteAt bytes 0 % 2 == 0 && Binary.highFirst bytes 3 3 == 0x9d012a then
    some ⟨width.toUInt32, height.toUInt32⟩
  else none

structure Header where
  segments : Option (List Nat)
  /-- As a power of two. -/
  partitions : Nat
  tokens : Array Nat
  /-- The probability that a square has coefficients, if some have none. -/
  skipping : Option Nat

namespace Header

def segmentProbability : Deciding Nat := do
  if ← Deciding.flag then Deciding.number 8 else pure 255

/-- Segments of squares that are quantized and smoothed in ways of their own. -/
def readSegments : Deciding (Option (List Nat)) := do
  if ← Deciding.flag then
    let told ← Deciding.flag
    if ← Deciding.flag then
      let _absolute ← Deciding.flag
      for _ in List.range 4 do Deciding.skipSigned 7
      for _ in List.range 4 do Deciding.skipSigned 6
    if told then
      return some [← segmentProbability, ← segmentProbability, ← segmentProbability]
    else return none
  else return none

def skipSmoothing : Deciding Unit := do
  let _kind ← Deciding.flag
  let _level ← Deciding.number 6
  let _sharpness ← Deciding.number 3
  if ← Deciding.flag then
    if ← Deciding.flag then
      for _ in List.range 8 do Deciding.skipSigned 6

def skipQuantization : Deciding Unit := do
  let _base ← Deciding.number 7
  for _ in List.range 5 do Deciding.skipSigned 4

def readTokens : Deciding (Array Nat) :=
  (List.range firstTokens.size).foldlM (fun table i => do
    if ← Deciding.bit (keptTokens.getD i 0) then
      return table.setIfInBounds i (← Deciding.number 8)
    else return table) firstTokens

def read : Deciding Header := do
  if ← Deciding.flag then Deciding.wrong
  else
    let _clamped ← Deciding.flag
    let segments ← readSegments
    skipSmoothing
    let partitions ← Deciding.number 2
    skipQuantization
    let _kept ← Deciding.flag
    let tokens ← readTokens
    let skipping ← do
      if ← Deciding.flag then pure (some (← Deciding.number 8)) else pure none
    return ⟨segments, partitions, tokens, skipping⟩

end Header

/-- The partitions of coefficients in the bytes from an offset on. The lengths of all but the last
stand in front. -/
def partitionsFrom (bytes : ByteArray) (sizes : Nat) :
    (n : Nat) → (offset : Nat) → Option (List Arithmetic)
  | 0, offset => some [Arithmetic.start (bytes.extract offset bytes.size)]
  | n + 1, offset => do
    let stop := offset + Binary.lowFirst bytes sizes 3
    guard (stop ≤ bytes.size)
    let rest ← partitionsFrom bytes (sizes + 3) n stop
    return Arithmetic.start (bytes.extract offset stop) :: rest

def partitions (bytes : ByteArray) (n offset : Nat) : Option (List Arithmetic) := do
  let further := 1 <<< n - 1
  let start := offset + 3 * further
  guard (start ≤ bytes.size)
  partitionsFrom bytes offset further start

structure Progress where
  modes : Arithmetic
  coefficients : Arithmetic
  left : Edge
  below : Array Edge

def Progress.square (h : Header) (p : Progress) (above : Edge) : Except BitFault Progress := do
  let (m, modes) ← (Modes.read h.segments h.skipping above p.left).run p.modes
  let ((below, right), coefficients) ←
    if m.skipped then pure (withoutCoefficients m above p.left, p.coefficients)
    else (Lossy.coefficients h.tokens m above p.left).run p.coefficients
  return ⟨modes, coefficients, right, p.below.push below⟩

/-- Goes through `n` rows of squares, each with the next of the partitions. -/
def rows (h : Header) :
    (n : Nat) → (modes : Arithmetic) → List Arithmetic → (above : Array Edge) →
    Except BitFault Unit
  | 0, _, _, _ => pure ()
  | _ + 1, _, [], _ => pure ()
  | n + 1, modes, p :: others, above => do
    let done ← above.foldlM (Progress.square h) ⟨modes, p, Edge.none, #[]⟩
    rows h n done.modes (others ++ [done.coefficients]) done.below

def squares (side : UInt32) : Nat := (side.toNat + 15) / 16

/-- The size of a frame whose bytes are all there. -/
def soundSize (bytes : ByteArray) : Option Size := do
  guard (headLength ≤ bytes.size)
  let size ← sizeIn bytes
  let offset := headLength + Binary.lowFirst bytes 0 3 / 32
  guard (offset ≤ bytes.size)
  match Header.read.run (Arithmetic.start (bytes.extract headLength offset)) with
  | .error _ => none
  | .ok (h, modes) =>
    let coefficients ← partitions bytes h.partitions offset
    match rows h (squares size.height) modes coefficients
        (Array.replicate (squares size.width) Edge.none) with
    | .error _ => none
    | .ok () => some size

end ImageCache.Webp.Lossy
