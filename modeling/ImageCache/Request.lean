import ImageCache.Key

namespace ImageCache

/-- The three addresses start out equal and can be told apart: one names the image, one is where it
is downloaded from, and one is only shown. -/
structure Request where
  originUrl : String
  identityUrl : String
  remoteUrl : String
  target : Size
  sizeTag : String
  /-- Replaces the key that the identity address would give. -/
  identityKey? : Option String
  /-- Size tags of renditions that may be used instead, the most useful first. -/
  reuse? : Option (List String)
  originSize? : Option Size
deriving DecidableEq, Repr

namespace Request

def ofUrl (url : String) (target : Size) : Request where
  originUrl := url
  identityUrl := url
  remoteUrl := url
  target := target
  sizeTag := Key.sizeTag target
  identityKey? := none
  reuse? := none
  originSize? := none

def withIdentityUrl (r : Request) (url : String) : Request := { r with identityUrl := url }

def withRemoteUrl (r : Request) (url : String) : Request := { r with remoteUrl := url }

def withSizeTag (r : Request) (tag : String) : Request := { r with sizeTag := tag }

def withIdentityKey (r : Request) (key : String) : Request := { r with identityKey? := some key }

def withReuse (r : Request) (tags : List String) : Request := { r with reuse? := some tags }

def recordOrigin (r : Request) (size : Size) : Request := { r with originSize? := some size }

def identityKey (r : Request) : String := r.identityKey?.getD (Key.identityKey r.identityUrl)

def renditionKey (r : Request) (tag : String) : String := Key.diskKey r.identityUrl tag

/-- The key of the rendition that the request itself asks for. -/
def fileKey (r : Request) : String := r.renditionKey r.sizeTag

def reuseTags (r : Request) : List String := r.reuse?.getD []

def text (r : Request) : String := "[" ++ r.identityUrl ++ " " ++ r.sizeTag ++ "]"

end Request

end ImageCache
