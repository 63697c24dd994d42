namespace ImageCache

structure FetchSettings where
  memorySupported : Bool
  /-- How many bytes of a stream may be read while its size is looked for. -/
  lookAhead : Nat
deriving DecidableEq, Repr

namespace FetchSettings

def defaultLookAhead : Nat := 65536

def standard : FetchSettings := ⟨true, defaultLookAhead⟩

def build (memorySupported : Option Bool) (lookAhead : Option Nat) : FetchSettings :=
  ⟨memorySupported.getD standard.memorySupported, lookAhead.getD standard.lookAhead⟩

end FetchSettings

structure MemoryLimits where
  maxCost : UInt64
  maxSingle : UInt64
deriving DecidableEq, Repr

inductive SetupError where
  | missing (field : String)
deriving DecidableEq, Repr

namespace SetupError

def message : SetupError → String
  | missing field => "`" ++ field ++ "` must be initialized"

end SetupError

namespace MemoryLimits

/-- The total has to be given; a single image is free to use all of it. -/
def build (maxCost maxSingle : Option UInt64) : Except SetupError MemoryLimits :=
  match maxCost with
  | none => .error (.missing "max_cost")
  | some total => .ok ⟨total, maxSingle.getD 0xffffffffffffffff⟩

end MemoryLimits

def defaultStaleSeconds : Nat := 600

end ImageCache
