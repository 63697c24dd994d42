import ImageCache.Fetch.Transfer
import ImageCache.Maintenance
import ImageCache.Part
import ImageCache.Reading.Basic
import ImageCache.Size

namespace ImageCache

/-- Encoded bytes by key. Nothing staged is seen by readers before it is committed. `R` and `Wr` are
open entries and open writers. All collaborators act on one world `W`, so that a call may answer
according to everything that happened before it. -/
structure ByteStore (W R Wr : Type) where
  read : String → StateM W (Except Fault (Option R))
  /-- Opens a writer, unless another one holds the key. -/
  stage : String → StateM W (Except Fault (Option Wr))
  entry : SeekableReader (R × W)
  writer : Sink (Wr × W)
  commit : Wr → StateM W (Except Fault Unit)
  abort : Wr → StateM W (Except Fault Unit)
  maintain : StateM W Maintenance

structure Source (W S : Type) where
  transfer : String → StateM W Transfer
  openStream : String → StateM W (Except Fault (Option S))
  stream : Reader (S × W)

/-- Makes images out of bytes. `E` are its own faults. -/
structure Codec (I E : Type) where
  bounds : Reading (Except E Size)
  decode : UInt32 → Reading (Except E I)
  boundsSeekable : SeekReading (Except E Size)
  decodeSeekable : UInt32 → SeekReading (Except E I)

namespace Codec

/-- A codec that reads entries just as it reads streams. -/
def sequential {I E : Type} (bounds : Reading (Except E Size))
    (decode : UInt32 → Reading (Except E I)) : Codec I E :=
  ⟨bounds, decode, bounds.seekable, fun factor => (decode factor).seekable⟩

end Codec

structure MemoryTier (W I : Type) where
  get : String → StateM W (Option I)
  set : String → I → StateM W Unit
  clear : StateM W Unit

end ImageCache
