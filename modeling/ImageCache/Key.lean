import ImageCache.Hash.Sha256
import ImageCache.Size
import ImageCache.Text.Blank
import ImageCache.Text.Hex

namespace ImageCache.Key

/-- Identities are compared without the blanks around them. -/
def normalize (identity : String) : String := Text.trim identity

/-- The key of an image among the decoded ones, whatever its size. -/
def identityKey (identity : String) : String := normalize identity

def countBytes (n : UInt64) : List UInt8 :=
  (List.range 8).map fun i => (n >>> (8 * i.toUInt64)).toUInt8

/-- What is hashed for a rendition. The length in front tells where the identity ends and the tag
begins. -/
def preimage (identity sizeTag : String) : ByteArray :=
  let id := (normalize identity).toUTF8
  (countBytes id.size.toUInt64).toByteArray ++ id ++ sizeTag.toUTF8

/-- The key of a rendition among the encoded ones: a name of 64 hexadecimal digits. -/
def diskKey (identity sizeTag : String) : String :=
  Text.Hex.encode (Hash.Sha256.digest (preimage identity sizeTag)).toList

def sizeTag (size : Size) : String := size.text

end ImageCache.Key
