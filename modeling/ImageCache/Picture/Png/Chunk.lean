import ImageCache.Binary
import ImageCache.Hash.Crc32

namespace ImageCache.Png

inductive Kind where
  | header
  | palette
  | transparency
  | background
  /-- How colours are coded, the display they were made for, and its light. -/
  | coding
  | mastering
  | light
  | frame
  | data
  | frameData
  | ending
  /-- Any other kind; it may be passed over unless it is critical. -/
  | other (critical : Bool)
deriving DecidableEq

namespace Kind

def names : List (String × Kind) := [
  ("IHDR", header), ("PLTE", palette), ("tRNS", transparency), ("bKGD", background),
  ("cICP", coding), ("mDCV", mastering), ("cLLI", light), ("fcTL", frame), ("IDAT", data),
  ("fdAT", frameData), ("IEND", ending)]

/-- The kind that four letters stand for. A small first letter tells that it is not critical. -/
def ofBytes (bytes : ByteArray) : Kind :=
  match names.find? fun (name, _) => Binary.spells bytes 0 name with
  | some (_, kind) => kind
  | none => other (Binary.byteAt bytes 0 &&& 0x20 == 0)

def isCritical : Kind → Bool
  | header | palette | data | ending => true
  | transparency | background | coding | mastering | light | frame | frameData => false
  | other critical => critical

end Kind

/-- The checksum behind a chunk covers its kind and its data. -/
def isChecked (kind field : ByteArray) : Bool :=
  Hash.Crc32.digest (kind ++ field.extract 0 (field.size - 4)) ==
    (Binary.highFirst field (field.size - 4) 4).toUInt32

end ImageCache.Png
