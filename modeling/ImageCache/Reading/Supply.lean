import ImageCache.Reading.Basic

namespace ImageCache

structure Supply where
  bytes : ByteArray
  fault : Option Fault

namespace Supply

def portion : Nat := 8192

/-- Asks, `fuel` times at most, until nothing more comes after the bytes `got`. An interrupted call
is made again. -/
def loop : Nat → ByteArray → Reading Supply
  | 0, got => pure ⟨got, none⟩
  | fuel + 1, got => do
    match ← Reading.upTo portion with
    | .ok bytes => if bytes.size = 0 then pure ⟨got, none⟩ else loop fuel (got ++ bytes)
    | .error e => if e.isInterruption then loop fuel got else pure ⟨got, some e⟩

end Supply

/-- Every call but the last takes bytes or is interrupted, so what is to come bounds their
number. -/
def Reading.supply : Reading Supply := do
  Supply.loop ((← Reading.horizon) + 1) ByteArray.empty

end ImageCache
