import ImageCache.Picture.Grammar
import ImageCache.Picture.Png.Chunk
import ImageCache.Picture.Png.Header

namespace ImageCache.Png

/-- What stands before the data. -/
structure Head where
  header : Header
  palette : Option ByteArray
  /-- The opacity of palette entries, or the one colour that is transparent. -/
  transparency : Option ByteArray
  described : List Kind
  sequence : Option Nat

namespace Head

/-- Greys and palette entries are spread over whole samples, and transparency makes a channel. -/
def kind (h : Head) : PixelKind where
  channels :=
    match h.header.color, h.transparency with
    | .grey, none => .grey
    | .grey, some _ | .greyAlpha, _ => .greyAlpha
    | .rgb, none | .indexed, none => .rgb
    | .rgb, some _ | .indexed, some _ | .rgba, _ => .rgba
  wide := h.header.depth == 16

def rowFits (h : Head) : Bool := decide (h.header.size.width.toNat * h.kind.bytes ≤ Grammar.room)

def withPalette (h : Head) (bytes : ByteArray) : Option Head := do
  guard h.palette.isNone
  guard (bytes.size ≠ 0 ∧ bytes.size ≤ 768 ∧ bytes.size % 3 = 0)
  return { h with palette := some bytes }

/-- A transparent colour has two bytes for each sample; a palette has opacities for some entries.
The first that is right counts, and the others are passed over. -/
def withTransparency (h : Head) (bytes : ByteArray) : Head :=
  let fits := match h.header.color with
    | .grey => decide (2 ≤ bytes.size)
    | .rgb => decide (6 ≤ bytes.size)
    | .indexed => h.palette.isSome
    | .greyAlpha | .rgba => false
  if fits && h.transparency.isNone then { h with transparency := some bytes } else h

/-- Takes up a description of colours once, if it stands in its place and is long enough. Then it
has to be right. -/
def describe (h : Head) (kind : Kind) (inPlace enough right : Bool) : Option Head :=
  if h.described.contains kind || !inPlace || !enough then some h
  else if right then some { h with described := kind :: h.described }
  else none

def nextInSequence (h : Head) : Nat :=
  match h.sequence with
  | none => 0
  | some n => n + 1

/-- A frame that is the whole image, with one of three ways to leave it and of two to draw it. -/
def withFrame (h : Head) (bytes : ByteArray) : Option Head := do
  guard (26 ≤ bytes.size)
  guard (Binary.highFirst bytes 0 4 = h.nextInSequence)
  guard (Binary.highFirst bytes 4 4 = h.header.size.width.toNat)
  guard (Binary.highFirst bytes 8 4 = h.header.size.height.toNat)
  guard (Binary.highFirst bytes 12 8 = 0)
  guard (Binary.byteAt bytes 24 ≤ 2 ∧ Binary.byteAt bytes 25 ≤ 1)
  return { h with sequence := some h.nextInSequence }

/-- What a chunk says. A second image header, an end before the data and an unknown critical chunk
are faults. -/
def withChunk (h : Head) (kind : Kind) (bytes : ByteArray) : Option Head :=
  let early := h.palette.isNone
  match kind with
  | .palette => h.withPalette bytes
  | .transparency => some (h.withTransparency bytes)
  | .background => if h.header.color = .indexed ∧ early then none else some h
  | .coding => h.describe .coding early (4 ≤ bytes.size)
      (bytes.size == 4 && Binary.byteAt bytes 2 == 0 && Binary.byteAt bytes 3 ≤ 1)
  | .mastering => h.describe .mastering early (24 ≤ bytes.size) (bytes.size == 24)
  | .light => h.describe .light true (8 ≤ bytes.size) (bytes.size == 8)
  | .frame => h.withFrame bytes
  | .header | .data | .frameData | .ending => none
  | .other critical => if critical then none else some h

end Head

/-- What is known after a chunk. A chunk that is not critical is passed over if its checksum is
wrong. -/
def afterChunk (known : Option Head) (kind field : ByteArray) : Option Head :=
  let bytes := field.extract 0 (field.size - 4)
  match known with
  | none => do
    guard (isChecked kind field)
    return ⟨← Header.ofBytes bytes, none, none, [], none⟩
  | some head =>
    if isChecked kind field then head.withChunk (Kind.ofBytes kind) bytes
    else if (Kind.ofBytes kind).isCritical then none
    else some head

structure Opening where
  head : Head
  framed : Bool
  length : Nat

/-- The data of a frame come after the description of the frame and have room for the number. -/
def Opening.ofChunk (head : Head) (kind : Kind) (length : Nat) : Option Opening := do
  guard head.rowFits
  if kind = .frameData then
    guard (head.sequence.isSome ∧ 4 ≤ length)
  return ⟨head, kind = .frameData, length⟩

inductive State where
  | signature
  | chunk (known : Option Head)
  | data (known : Option Head) (kind : ByteArray) (length : Nat)

def signature : List UInt8 := [0x89, 0x50, 0x4e, 0x47, 0x0d, 0x0a, 0x1a, 0x0a]

/-- What the length and the kind of a chunk lead to. Nothing comes before the image header. -/
def atChunk (known : Option Head) (length : Nat) (kind : ByteArray) : Advance State Opening :=
  match known, Kind.ofBytes kind with
  | none, .header => .onto (.data none kind length)
  | none, _ => .malformed
  | some head, .data | some head, .frameData =>
    match Opening.ofChunk head (Kind.ofBytes kind) length with
    | some opening => .found opening
    | none => .malformed
  | some head, _ => .onto (.data head kind length)

/-- The head is found together with the length of the first chunk of data. -/
def take (s : State) (field : ByteArray) : Advance State Opening :=
  match s with
  | .signature => if field.toList = signature then .onto (.chunk none) else .malformed
  | .chunk known => atChunk known (Binary.highFirst field 0 4) (field.extract 4 8)
  | .data known kind _ =>
    match afterChunk known kind field with
    | some head => .onto (.chunk (some head))
    | none => .malformed

def head : Layout State Opening where
  width
    | .signature | .chunk _ => 8
    | .data _ _ length => length + 4
  width_pos s := by cases s <;> simp
  take := take

end ImageCache.Png
