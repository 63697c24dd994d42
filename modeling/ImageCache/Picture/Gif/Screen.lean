import ImageCache.Binary
import ImageCache.Picture.Layout
import ImageCache.Size

namespace ImageCache.Gif

/-- What stands before the first frame. -/
structure Screen where
  size : Size
  palette : Option ByteArray
  clear : Option UInt8

/-- The head of a file. It ends with the byte behind the mark of the first block that is no
extension, or with the mark of the end of the file if that follows an extension. -/
structure Head where
  screen : Screen
  first : Option UInt8

inductive Place where
  | screen
  | palette (bytes : Nat)
  /-- The byte that tells what comes, perhaps behind an extension. -/
  | block (extended : Bool)
  | label
  | length (label : UInt8)
  | part (label : UInt8) (last : ByteArray)
  /-- A part, one byte longer than `more`. -/
  | extension (label : UInt8) (more : Nat)
  | behind (mark : UInt8)

structure State where
  place : Place
  screen : Screen

/-- The label of the extension that tells how the next frame is drawn. -/
def control : UInt8 := 0xf9

def labels : List UInt8 := [0x01, control, 0xfe, 0xff]

def extensionMark : UInt8 := 0x21
def frameMark : UInt8 := 0x2c
def endMark : UInt8 := 0x3b

/-- A palette has `2 ^ (n + 1)` colours of three bytes, where `n` are the low three bits of the
flags and the highest one tells that there is a palette. -/
def paletteBytes (flags : UInt8) : Option Nat :=
  if flags &&& 0x80 = 0 then none else some (3 <<< ((flags &&& 7).toNat + 1))

def sides (bytes : ByteArray) (i : Nat) : Size :=
  ⟨(Binary.lowFirst bytes i 2).toUInt32, (Binary.lowFirst bytes (i + 2) 2).toUInt32⟩

/-- Takes up an extension, of which the last part counts. -/
def Screen.extended (s : Screen) (label : UInt8) (last : ByteArray) : Option Screen :=
  if label = control then
    if last.size = 4 then
      let clear := if Binary.byteAt last 0 &&& 1 = 1 then some (Binary.byteAt last 3) else none
      some { s with clear := clear }
    else none
  else some s

def take (s : State) (field : ByteArray) : Advance State Head :=
  let byte := Binary.byteAt field 0
  match s.place with
  | .screen =>
    let screen := { s.screen with size := sides field 6 }
    if Binary.spells field 0 "GIF89a" || Binary.spells field 0 "GIF87a" then
      match paletteBytes (Binary.byteAt field 10) with
      | some n => .onto ⟨.palette n, screen⟩
      | none => .onto ⟨.block false, screen⟩
    else .malformed
  | .palette _ => .onto ⟨.block false, { s.screen with palette := some field }⟩
  | .block extended =>
    if byte = extensionMark then .onto ⟨.label, s.screen⟩
    else if byte = endMark && extended then .found ⟨s.screen, none⟩
    else .onto ⟨.behind byte, s.screen⟩
  | .label => if labels.contains byte then .onto ⟨.length byte, s.screen⟩ else .malformed
  | .length label =>
    match byte.toNat with
    | 0 => .onto ⟨.part label ByteArray.empty, s.screen⟩
    | more + 1 => .onto ⟨.extension label more, s.screen⟩
  | .part label last =>
    match byte.toNat with
    | 0 =>
      match s.screen.extended label last with
      | some screen => .onto ⟨.block true, screen⟩
      | none => .malformed
    | more + 1 => .onto ⟨.extension label more, s.screen⟩
  | .extension label _ => .onto ⟨.part label field, s.screen⟩
  | .behind mark => .found ⟨s.screen, if mark = frameMark then some byte else none⟩

def head : Layout State Head where
  width s := match s.place with
    | .screen => 13
    | .palette n => max 1 n
    | .block _ | .label | .length _ | .part _ _ | .behind _ => 1
    | .extension _ more => more + 1
  width_pos s := by cases s with | mk place => cases place <;> dsimp only <;> omega
  take := take

def start : State := ⟨.screen, ⟨⟨0, 0⟩, none, none⟩⟩

end ImageCache.Gif
