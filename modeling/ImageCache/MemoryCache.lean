import ImageCache.Settings

namespace ImageCache

structure Slot (α : Type) where
  key : String
  value : α
  cost : UInt64

/-- Values by key, each with a cost. A value too costly by itself is not kept at all, but still
replaces the one that its key had. -/
structure MemoryCache (α : Type) where
  limits : MemoryLimits
  /-- The least recently used slot comes first. -/
  slots : List (Slot α)
  cost : UInt64

namespace MemoryCache

variable {α : Type}

def empty (limits : MemoryLimits) : MemoryCache α := ⟨limits, [], 0⟩

def size (c : MemoryCache α) : Nat := c.slots.length

def isEmpty (c : MemoryCache α) : Bool := c.slots.isEmpty

def find? (c : MemoryCache α) (key : String) : Option (Slot α) :=
  c.slots.find? (·.key == key)

def others (c : MemoryCache α) (key : String) : List (Slot α) :=
  c.slots.filter (·.key != key)

def erase (c : MemoryCache α) (key : String) : MemoryCache α :=
  match c.find? key with
  | some slot => { c with slots := c.others key, cost := c.cost - slot.cost }
  | none => c

/-- Drops slots from the front until the total keeps to the limit. -/
def evict (limit : UInt64) : List (Slot α) → UInt64 → List (Slot α) × UInt64
  | [], total => ([], total)
  | slot :: rest, total =>
    if limit < total then evict limit rest (total - slot.cost) else (slot :: rest, total)

def set (c : MemoryCache α) (key : String) (value : α) (cost : UInt64) : MemoryCache α :=
  let c := c.erase key
  if c.limits.maxSingle < cost then c
  else
    let (slots, total) := evict c.limits.maxCost (c.slots ++ [⟨key, value, cost⟩]) (c.cost + cost)
    { c with slots := slots, cost := total }

def get (c : MemoryCache α) (key : String) : Option α × MemoryCache α :=
  match c.find? key with
  | some slot => (some slot.value, { c with slots := c.others key ++ [slot] })
  | none => (none, c)

def remove (c : MemoryCache α) (key : String) : Option α × MemoryCache α :=
  ((c.find? key).map (·.value), c.erase key)

def clear (c : MemoryCache α) : MemoryCache α := { c with slots := [], cost := 0 }

end MemoryCache

end ImageCache
