namespace ImageCache

structure Size where
  width : UInt32
  height : UInt32
deriving DecidableEq, Inhabited, Repr

namespace Size

def isEmpty (s : Size) : Bool := s.width == 0 || s.height == 0

/-- Width and height in decimal with an `x` between them. -/
def text (s : Size) : String :=
  toString s.width.toNat ++ "x" ++ toString s.height.toNat

def shrink (s : Size) (factor : UInt32) : Size :=
  ⟨s.width / factor, s.height / factor⟩

end Size

end ImageCache
