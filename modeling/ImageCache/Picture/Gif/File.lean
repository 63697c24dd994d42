import ImageCache.Picture.Gif.Frame
import ImageCache.Picture.Grammar

namespace ImageCache.Gif

inductive FrameState where
  | description (first : UInt8)
  | palette (frame : Frame) (bytes : Nat)
  | valueBits (frame : Frame)
  | length (u : Unpacking)
  | part (u : Unpacking) (more : Nat)

def colored (frame : Frame) : Advance FrameState Raster :=
  if frame.palette.isEmpty then .malformed else .onto (.valueBits frame)

/-- The frame is complete as soon as all its pixels are there. -/
def completed (screen : Screen) (u : Unpacking) : Option Raster :=
  if u.isComplete then some (u.frame.onScreen screen u.numbers) else none

def takeFrame (screen : Screen) (s : FrameState) (field : ByteArray) :
    Advance FrameState Raster :=
  let byte := Binary.byteAt field 0
  match s with
  | .description first =>
    let bytes := ByteArray.mk #[first] ++ field
    let flags := Binary.byteAt bytes 8
    let frame : Frame := ⟨Binary.lowFirst bytes 0 2, Binary.lowFirst bytes 2 2, sides bytes 4,
      screen.palette.getD ByteArray.empty, flags &&& 0x40 != 0⟩
    match paletteBytes flags with
    | some n => .onto (.palette frame n)
    | none => colored frame
  | .palette frame _ => colored { frame with palette := field }
  | .valueBits frame =>
    if 1 ≤ byte && byte ≤ 11 && frame.isSound then
      .onto (.length ⟨frame, .start byte.toNat, ByteArray.empty⟩)
    else .malformed
  | .length u =>
    match completed screen u, byte.toNat with
    | some raster, _ => .found raster
    | none, 0 =>
      match u.finish.bind (completed screen) with
      | some raster => .found raster
      | none => .malformed
    | none, more + 1 => .onto (.part u more)
  | .part u _ =>
    match u.feed field with
    | none => .malformed
    | some u =>
      match completed screen u with
      | some raster => .found raster
      | none => .onto (.length u)

def body (screen : Screen) : Layout FrameState Raster where
  width
    | .description _ => 8
    | .palette _ n => max 1 n
    | .valueBits _ | .length _ => 1
    | .part _ more => more + 1
  width_pos
    | .description _ => Nat.succ_pos 7
    | .palette _ n => Nat.lt_of_lt_of_le Nat.one_pos (Nat.le_max_left 1 n)
    | .valueBits _ | .length _ => Nat.one_pos
    | .part _ more => Nat.succ_pos more
  take := takeFrame screen

/-- The image in bytes from the description of the frame on. The last part may be cut short, if the
frame is complete without what is missing. -/
def picture (screen : Screen) (first : UInt8) (bytes : ByteArray) (offset : Nat) :
    Except PictureFault Raster :=
  match (body screen).walk bytes (.description first) offset with
  | .short (.part u _) offset =>
    match (u.feed (bytes.extract offset bytes.size)).bind (completed screen) with
    | some raster => .ok raster
    | none => .error .truncated
  | walk => walk.toExcept.map (·.1)

def grammar : Grammar where
  Head := Head × Nat
  head bytes := head.parse bytes start 0
  size | (h, _) => h.screen.size
  kind _ := ⟨.rgba, false⟩
  tookAll _ := false
  body
    | (h, offset), bytes =>
      match h.first with
      | some first => picture h.screen first bytes offset
      | none => .error .malformed

end ImageCache.Gif
