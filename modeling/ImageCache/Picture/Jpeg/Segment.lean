import ImageCache.Binary
import ImageCache.Picture.Raster

namespace ImageCache.Jpeg

structure Component where
  id : UInt8
  quantization : Nat
  /-- The tables for its first coefficients and for the others, which the scan names. -/
  first : Nat
  others : Nat

structure Frame where
  size : Size
  components : List Component
  /-- The image is coded in several scans, each of which makes it finer. -/
  progressive : Bool

structure Known where
  frame : Option Frame
  quantization : List Nat
  first : List Nat
  others : List Nat

def tableLimit : Nat := 4

namespace Component

/-- How often a component is sampled in either direction is a power of two. -/
def samplings : List UInt8 := [1, 2, 4, 8]

def ofBytes (bytes : ByteArray) (i : Nat) : Option Component := do
  let sampling := Binary.byteAt bytes (i + 1)
  guard (samplings.contains (sampling >>> 4) ∧ samplings.contains (sampling &&& 0x0f))
  let quantization := (Binary.byteAt bytes (i + 2)).toNat
  guard (quantization < tableLimit)
  return ⟨Binary.byteAt bytes i, quantization, 0, 0⟩

end Component

/-- Samples have eight bits, sides are not zero, and there are one to four components. -/
def Frame.ofSegment (bytes : ByteArray) (progressive : Bool) : Option Frame := do
  let height := Binary.highFirst bytes 1 2
  let width := Binary.highFirst bytes 3 2
  let count := (Binary.byteAt bytes 5).toNat
  guard (Binary.byteAt bytes 0 = 8 ∧ height ≠ 0 ∧ width ≠ 0)
  guard (1 ≤ count ∧ count ≤ 4 ∧ bytes.size = 6 + 3 * count)
  let components ← (List.range count).mapM fun i => Component.ofBytes bytes (6 + 3 * i)
  return ⟨⟨width.toUInt32, height.toUInt32⟩, components, progressive⟩

def Frame.kind (f : Frame) : PixelKind :=
  ⟨if f.components.length = 1 then .grey else .rgb, false⟩

def Frame.withTables (f : Frame) (id : UInt8) (first others : Nat) : Option Frame := do
  let i ← f.components.findIdx? (·.id == id)
  return { f with
    components := f.components.modify i fun c => { c with first := first, others := others } }

/-- A scan names one to four different components with their tables. Bands of coefficients lie
within a block, and precision is refined by 13 bits at most. -/
def Frame.withScan (f : Frame) (bytes : ByteArray) : Option Frame := do
  let count := (Binary.byteAt bytes 0).toNat
  guard (1 ≤ count ∧ count ≤ 4 ∧ bytes.size = 4 + 2 * count)
  let ids := (List.range count).map fun i => Binary.byteAt bytes (1 + 2 * i)
  guard ids.Nodup
  let approximation := Binary.byteAt bytes (2 * count + 3)
  guard (Binary.byteAt bytes (2 * count + 1) ≤ 63 ∧ Binary.byteAt bytes (2 * count + 2) ≤ 63)
  guard (approximation >>> 4 ≤ 13 ∧ approximation &&& 0x0f ≤ 13)
  ids.zipIdx.foldlM (fun f (id, i) =>
    let tables := Binary.byteAt bytes (2 + 2 * i)
    f.withTables id (tables >>> 4).toNat (tables &&& 0x0f).toNat) f

namespace Known

/-- Words of a code get used up in order of their lengths, and none consists of ones alone. -/
def wordsFit (counts : List Nat) : Bool :=
  (counts.foldl (fun (word, length, ok) count =>
    (2 * (word + count), length + 1, ok && decide (word + count < 1 <<< length)))
    (0, 1, true)).2.2

def countsAt (bytes : ByteArray) (offset : Nat) : List Nat :=
  (List.range 16).map fun i => (Binary.byteAt bytes (offset + i)).toNat

/-- Takes up tables of codes from an offset on: each has its kind and number, the counts of words,
and a symbol for each word. First coefficients have up to 15 bits. -/
def withCodes (k : Known) (bytes : ByteArray) (offset : Nat) : Option Known :=
  if _more : offset + 16 < bytes.size then
    let number := (Binary.byteAt bytes offset &&& 0x0f).toNat
    let kind := Binary.byteAt bytes offset >>> 4
    let counts := countsAt bytes (offset + 1)
    let stop := offset + 17 + counts.foldl (· + ·) 0
    let symbols := (bytes.extract (offset + 17) stop).toList
    if number < tableLimit && kind ≤ 1 && symbols.length ≤ 256 && stop ≤ bytes.size &&
        wordsFit counts && (kind == 1 || symbols.all (· ≤ 15)) then
      let k := if kind = 0 then { k with first := number :: k.first }
        else { k with others := number :: k.others }
      k.withCodes bytes stop
    else none
  else if offset = bytes.size then some k
  else none
termination_by bytes.size - offset

/-- Takes up tables of quantization from an offset on: each has its precision and number, and 64
entries of one byte or two. -/
def withQuantization (k : Known) (bytes : ByteArray) (offset : Nat) : Option Known :=
  if _more : offset < bytes.size then
    let number := (Binary.byteAt bytes offset &&& 0x0f).toNat
    let precision := (Binary.byteAt bytes offset >>> 4).toNat
    let stop := offset + 1 + 64 * (precision + 1)
    if precision ≤ 1 && number < tableLimit && stop ≤ bytes.size then
      { k with quantization := number :: k.quantization }.withQuantization bytes stop
    else none
  else some k
termination_by bytes.size - offset

def withUsualCodes (k : Known) : Known :=
  { k with first := [0, 1] ++ k.first, others := [0, 1] ++ k.others }

/-- The tables that the image needs are there. What codes an image of several scans uses shows only
in them. -/
def provides (k : Known) (f : Frame) : Bool :=
  f.components.all fun c =>
    k.quantization.contains c.quantization &&
      (f.progressive || (k.first.contains c.first && k.others.contains c.others))

/-- Takes up a segment that belongs to an application. Some are known by the text they begin
with. -/
def withApplication (k : Known) (marker : UInt8) (bytes : ByteArray) : Option Known :=
  let spells (text : String) : Bool := Binary.spells bytes 0 text
  match marker with
  | 0xe0 => some (if spells "Avi1\x00" then k.withUsualCodes else k)
  | 0xe1 =>
    let extension := "http://ns.adobe.com/xmp/extension/\x00"
    if spells extension && bytes.size < extension.utf8ByteSize + 40 then none else some k
  | 0xee =>
    if bytes.size < 12 || (spells "Adobe" && 2 < Binary.byteAt bytes 11) then none else some k
  | _ => some k

end Known

end ImageCache.Jpeg
