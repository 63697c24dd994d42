import ImageCache.Fault

namespace ImageCache

inductive Maintenance where
  | idle
  | ended (result : Except Fault Unit)
  | panicked

namespace Maintenance

/-- What is told to someone who waits for the work. -/
def wait : Maintenance → Except Fault Unit
  | idle => .ok ()
  | ended result => result
  | panicked => .error .maintenancePanicked

end Maintenance

end ImageCache
