import ImageCache.Fault

namespace ImageCache

inductive PictureFault where
  | unread (fault : Fault)
  | unsupported
  | truncated
  | malformed
  | tooLarge
deriving DecidableEq

namespace PictureFault

def message : PictureFault → String
  | unread fault => fault.message
  | unsupported => "unsupported image format"
  | truncated => "image ends early"
  | malformed => "malformed image"
  | tooLarge => "image too large"

end PictureFault

end ImageCache
