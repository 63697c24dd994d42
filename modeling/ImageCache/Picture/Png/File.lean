import ImageCache.Picture.Png.Pixels

namespace ImageCache.Png

structure Collected where
  head : Head
  framed : Bool
  /-- The last piece comes first. -/
  pieces : List ByteArray

inductive DataState where
  | data (sofar : Collected) (length : Nat)
  | chunk (sofar : Collected)

/-- Takes up a chunk of data. In a frame the chunks are numbered on, and their checksums are not
compared. -/
def Collected.withField (c : Collected) (field : ByteArray) : Option Collected := do
  let bytes := field.extract 0 (field.size - 4)
  if c.framed then
    guard (4 ≤ bytes.size)
    guard (Binary.highFirst bytes 0 4 = c.head.nextInSequence)
    return { c with
      head := { c.head with sequence := some c.head.nextInSequence },
      pieces := bytes.extract 4 bytes.size :: c.pieces }
  else
    guard (isChecked "IDAT".toUTF8 field)
    return { c with pieces := bytes :: c.pieces }

def takeData (s : DataState) (field : ByteArray) : Advance DataState Raster :=
  match s with
  | .data sofar _ =>
    match sofar.withField field with
    | some sofar => .onto (.chunk sofar)
    | none => .malformed
  | .chunk sofar =>
    if Kind.ofBytes (field.extract 4 8) = (if sofar.framed then .frameData else .data) then
      .onto (.data sofar (Binary.highFirst field 0 4))
    else
      match sofar.head.decode sofar.pieces.reverse with
      | some raster => .found raster
      | none => .malformed

def body : Layout DataState Raster where
  width
    | .data _ length => length + 4
    | .chunk _ => 8
  width_pos s := by cases s <;> simp
  take := takeData

/-- The chunks of data follow each other. What comes behind the first bytes of the chunk after them
is not looked at. -/
def grammar : Grammar where
  Head := Opening × Nat
  head bytes := head.parse bytes .signature 0
  size | (o, _) => o.head.header.size
  kind | (o, _) => o.head.kind
  tookAll _ := false
  body
    | (o, offset), bytes =>
      (body.parse bytes (.data ⟨o.head, o.framed, []⟩ o.length) offset).map (·.1)

end ImageCache.Png
