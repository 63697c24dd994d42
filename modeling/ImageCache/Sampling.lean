import ImageCache.Size

namespace ImageCache

namespace Sampling

/-- The target enlarged by `factor` still lies within the origin. The products are taken in 64 bits,
where those of 32-bit sides and factors up to `2 ^ 32` are exact. -/
def fits (origin target : Size) (factor : UInt64) : Bool :=
  target.width.toUInt64 * factor ≤ origin.width.toUInt64 &&
    target.height.toUInt64 * factor ≤ origin.height.toUInt64

def double (good : UInt64 → Bool) : Nat → UInt64 → UInt64
  | 0, factor => factor
  | n + 1, factor => if good (factor * 2) then double good n (factor * 2) else factor

/-- The power of two by which an image of size `origin` is shrunk for `target`. Thirty-one doublings
suffice: a side of 32 bits holds no larger factor. -/
def factor (origin target : Size) : UInt32 :=
  if origin.isEmpty || target.isEmpty then 1
  else (double (fits origin target) 31 1).toUInt32

end Sampling

/-- What the decoding pass needs to know: the size found in the image, the size asked for, and the
factor chosen from the two. -/
structure DecodePlan where
  origin : Size
  target : Size
  factor : UInt32
deriving DecidableEq, Repr

namespace DecodePlan

def choose (origin target : Size) : DecodePlan :=
  ⟨origin, target, Sampling.factor origin target⟩

def decodedSize (p : DecodePlan) : Size := p.origin.shrink p.factor

end DecodePlan

end ImageCache
