import ImageCache.Fault
import ImageCache.Request

namespace ImageCache

inductive Event where
  | started (fileKey : String)
  | diskHit
  | reuseHit (tag : String)
  | reuseMiss (tag key : String)
  | downloading (url : String)
  | writerConflict
  | downloadFailed (error : String)
  | committed (bytes : Nat)
  | decoding (origin : Size) (factor : UInt32)
  | unavailable
deriving DecidableEq, Repr

inductive Notice where
  | decodeFailed
  | storeFault (fault : Fault)
  | abortFailed (fault : Fault)
  | stagedLeft (fault : Fault)
  | pruned (removed : Nat)
deriving DecidableEq, Repr

structure Observer (W : Type) where
  onEvent : Request → Event → StateM W Unit

namespace Observer

def silent {W : Type} : Observer W := ⟨fun _ _ => pure ()⟩

end Observer

inductive Severity where
  | debug
  | warn
deriving DecidableEq, Repr

inductive LogValue where
  | text (s : String)
  | count (n : Nat)
deriving DecidableEq, Repr

structure LogRecord where
  severity : Severity
  message : String
  fields : List (String × LogValue)
deriving DecidableEq, Repr

namespace Event

def record (r : Request) (severity : Severity) (message : String)
    (fields : List (String × LogValue)) : LogRecord :=
  ⟨severity, message, ("request", .text r.text) :: fields⟩

/-- Mishaps are warnings; all else is detail. -/
def toRecord (r : Request) : Event → LogRecord
  | started key =>
    record r .debug "fetch started"
      [("identity_key", .text r.identityKey), ("file_cache_key", .text key),
       ("origin_url", .text r.originUrl)]
  | diskHit => record r .debug "disk cache hit" []
  | reuseHit tag => record r .debug "reusing other size" [("size_tag", .text tag)]
  | reuseMiss tag key =>
    record r .debug "reuse candidate missing" [("size_tag", .text tag), ("key", .text key)]
  | downloading url => record r .debug "downloading" [("url", .text url)]
  | writerConflict => record r .warn "disk entry is held by another writer" []
  | downloadFailed error => record r .warn "download failed" [("error", .text error)]
  | committed bytes => record r .debug "committed to disk" [("bytes", .count bytes)]
  | decoding origin factor =>
    record r .debug "decoding"
      [("origin", .text origin.text), ("sampling_factor", .count factor.toNat)]
  | unavailable => record r .warn "image unavailable" []

end Event

namespace Notice

def toRecord : Notice → LogRecord
  | decodeFailed => ⟨.warn, "decode failed", []⟩
  | storeFault e => ⟨.warn, "byte store fault", [("error", .text e.message)]⟩
  | abortFailed e => ⟨.warn, "could not abort disk entry", [("error", .text e.message)]⟩
  | stagedLeft e => ⟨.warn, "could not remove staged entry", [("error", .text e.message)]⟩
  | pruned n => ⟨.debug, "disk cache pruned", [("removed", .count n)]⟩

end Notice

namespace Observer

def logging {W : Type} (write : LogRecord → StateM W Unit) : Observer W :=
  ⟨fun r event => write (event.toRecord r)⟩

end Observer

end ImageCache
