import ImageCache.Picture.Grammar
import ImageCache.Picture.Jpeg.Segment

namespace ImageCache.Jpeg

inductive Place where
  | opening
  /-- A byte; it is a marker if the last one was `0xff`. -/
  | search (last : UInt8)
  | length (marker : UInt8)
  | segment (marker : UInt8) (more : Nat)

structure State where
  place : Place
  known : Known

structure Head where
  frame : Frame
  complete : Bool

def startOfScan : UInt8 := 0xda

/-- Frame headers of images coded with prefix codes in one pass or in several. -/
def frameMarkers : List UInt8 := [0xc0, 0xc1, 0xc2]

/-- Markers at which an image cannot be read on: arithmetic codes, a late height, and the end. -/
def fatalMarkers : List UInt8 := [0xcc, 0xdc, 0xd9]

def Known.withFrame (k : Known) (bytes : ByteArray) (progressive : Bool) : Option Known := do
  guard k.frame.isNone
  return { k with frame := some (← Frame.ofSegment bytes progressive) }

/-- What is known after a segment other than the header of a scan. There is one frame, and the
interval between restarts has two bytes. -/
def Known.withSegment (k : Known) (marker : UInt8) (bytes : ByteArray) : Option Known :=
  if frameMarkers.contains marker then k.withFrame bytes (marker == 0xc2)
  else
    match marker with
    | 0xc4 => k.withCodes bytes 0
    | 0xdb => k.withQuantization bytes 0
    | 0xdd => if bytes.size = 2 then some k else none
    | _ => k.withApplication marker bytes

def afterSegment (known : Known) (marker : UInt8) (bytes : ByteArray) : Advance State Head :=
  if marker = startOfScan then
    match known.frame.bind (·.withScan bytes) with
    | some frame => .found ⟨frame, known.provides frame⟩
    | none => .malformed
  else
    match known.withSegment marker bytes with
    | some known => .onto ⟨.search 0, known⟩
    | none => .malformed

/-- Bytes that are taken behind a length. The segment that tells what kind of file it is has five
bytes at least unless it is shorter than four. -/
def segmentBytes (marker : UInt8) (length : Nat) : Nat :=
  if marker = 0xe0 && length = 6 then 5 else length - 2

def take (s : State) (field : ByteArray) : Advance State Head :=
  match s.place with
  | .opening =>
    if Binary.highFirst field 0 2 == 0xffd8 then .onto ⟨.search 0, s.known⟩ else .malformed
  | .search last =>
    let byte := Binary.byteAt field 0
    if last == 0xff && byte != 0xff && byte != 0 then
      if fatalMarkers.contains byte then .malformed else .onto ⟨.length byte, s.known⟩
    else .onto ⟨.search byte, s.known⟩
  | .length marker =>
    let length := Binary.highFirst field 0 2
    if length < 2 then .malformed
    else
      match segmentBytes marker length with
      | 0 => afterSegment s.known marker ByteArray.empty
      | more + 1 => .onto ⟨.segment marker more, s.known⟩
  | .segment marker _ => afterSegment s.known marker field

def head : Layout State Head where
  width s := match s.place with
    | .opening | .length _ => 2
    | .search _ => 1
    | .segment _ more => more + 1
  width_pos s := by cases s with | mk place => cases place <;> simp
  take := take

/-- A file is read to its end before anything is looked at. Samples are not worked out, and data
that are missing behind the head are no fault. -/
def grammar : Grammar where
  Head := Head
  head bytes := (head.parse bytes ⟨.opening, ⟨none, [], [], []⟩⟩ 0).map (·.1)
  size h := h.frame.size
  kind h := h.frame.kind
  tookAll _ := true
  body h _ :=
    if h.complete then .ok ⟨h.frame.size, h.frame.kind, none⟩ else .error .malformed

end ImageCache.Jpeg
