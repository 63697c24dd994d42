namespace ImageCache

inductive FaultKind where
  | notFound
  | permissionDenied
  | alreadyExists
  | notADirectory
  | isADirectory
  | directoryNotEmpty
  | invalidFilename
  | invalidInput
  | invalidData
  | unexpectedEnd
  | writeZero
  | interrupted
  | brokenPipe
  | timedOut
  | wouldBlock
  | storageFull
  | other
deriving DecidableEq, Repr

inductive SystemFault where
  | noEntry
  | exists
  | notADirectory
  | isADirectory
  | nameTooLong
  | notEmpty
deriving DecidableEq, Repr

namespace SystemFault

def code : SystemFault → Nat
  | noEntry => 2
  | «exists» => 17
  | notADirectory => 20
  | isADirectory => 21
  | nameTooLong => 36
  | notEmpty => 39

def kind : SystemFault → FaultKind
  | noEntry => .notFound
  | «exists» => .alreadyExists
  | notADirectory => .notADirectory
  | isADirectory => .isADirectory
  | nameTooLong => .invalidFilename
  | notEmpty => .directoryNotEmpty

end SystemFault

inductive Fault where
  | system (cause : SystemFault)
  | shortRead
  | refusedBytes
  | outsideWindow
  | invalidKey
  | invalidPath
  | outsideRoot
  | nulInName
  | maintenancePanicked
  | reported (kind : FaultKind) (message : String)
deriving DecidableEq, Repr

namespace Fault

def kind : Fault → FaultKind
  | system cause => cause.kind
  | shortRead => .unexpectedEnd
  | refusedBytes => .writeZero
  | outsideWindow => .invalidInput
  | invalidKey => .invalidInput
  | invalidPath => .other
  | outsideRoot => .other
  | nulInName => .invalidInput
  | maintenancePanicked => .other
  | reported kind _ => kind

def message : Fault → String
  | system cause => "os error " ++ toString cause.code
  | shortRead => "failed to fill whole buffer"
  | refusedBytes => "failed to write whole buffer"
  | outsideWindow => "position is outside the look-ahead window"
  | invalidKey => "invalid cache key"
  | invalidPath => "Invalid path"
  | outsideRoot => "path is outside the store root directory"
  | nulInName => "file name contained an unexpected NUL byte"
  | maintenancePanicked => "store maintenance panicked"
  | reported _ message => message

/-- The call was cut short without effect and may be made again. -/
def isInterruption (f : Fault) : Bool := f.kind = .interrupted

end Fault

end ImageCache
