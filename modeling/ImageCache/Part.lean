namespace ImageCache

/-- How to look at a part of a larger state, and how to put a changed one back. -/
structure Part (W P : Type) where
  get : W → P
  set : P → W → W

namespace Part

variable {W P α : Type}

def whole : Part W W := ⟨id, fun p _ => p⟩

structure Lawful (p : Part W P) : Prop where
  get_set : ∀ x w, p.get (p.set x w) = x
  set_get : ∀ w, p.set (p.get w) w = w
  set_set : ∀ x y w, p.set x (p.set y w) = p.set x w

def run (p : Part W P) (op : StateM P α) : StateM W α := fun w =>
  let (a, x) := op (p.get w)
  (a, p.set x w)

def modify (p : Part W P) (f : P → P) : StateM W Unit := fun w => ((), p.set (f (p.get w)) w)

def runWith {H : Type} (p : Part W P) (op : H × P → α × (H × P)) : H × W → α × (H × W) :=
  fun (h, w) =>
    let (a, (h, x)) := op (h, p.get w)
    (a, (h, p.set x w))

end Part

end ImageCache
