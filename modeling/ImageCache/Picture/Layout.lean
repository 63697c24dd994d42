import ImageCache.Picture.Fault

namespace ImageCache

inductive Advance (S α : Type) where
  | onto (state : S)
  | found (result : α)
  | malformed

/-- A format as a sequence of fields. Each state knows how wide the next field is, and what follows
is decided by that field alone. -/
structure Layout (S α : Type) where
  width : S → Nat
  width_pos : ∀ s, 0 < width s
  take : S → ByteArray → Advance S α

inductive Walk (S α : Type) where
  /-- With a result, and the offset behind the last field. -/
  | found (result : α) (stop : Nat)
  | malformed
  /-- The bytes end within the field at the offset. -/
  | short (state : S) (offset : Nat)

namespace Walk

variable {S α : Type}

def toExcept : Walk S α → Except PictureFault (α × Nat)
  | found a stop => .ok (a, stop)
  | malformed => .error .malformed
  | short _ _ => .error .truncated

end Walk

namespace Layout

variable {S α : Type}

def walk (l : Layout S α) (bytes : ByteArray) (s : S) (offset : Nat) : Walk S α :=
  if _fits : offset + l.width s ≤ bytes.size then
    match l.take s (bytes.extract offset (offset + l.width s)) with
    | .onto s' => l.walk bytes s' (offset + l.width s)
    | .found a => .found a (offset + l.width s)
    | .malformed => .malformed
  else .short s offset
termination_by bytes.size - offset
decreasing_by have := l.width_pos s; omega

/-- What a walk finds. A result comes with the offset behind its last field. -/
def parse (l : Layout S α) (bytes : ByteArray) (s : S) (offset : Nat) :
    Except PictureFault (α × Nat) :=
  (l.walk bytes s offset).toExcept

theorem parse_eq_ok_iff (l : Layout S α) (bytes : ByteArray) (s : S) (offset : Nat) {a : α}
    {stop : Nat} :
    l.parse bytes s offset = .ok (a, stop) ↔ l.walk bytes s offset = .found a stop := by
  unfold parse
  cases l.walk bytes s offset <;> simp [Walk.toExcept]

theorem field_append {a b : ByteArray} {i j : Nat} (h : j ≤ a.size) :
    (a ++ b).extract i j = a.extract i j := by
  have none : b.extract (i - a.size) 0 = ByteArray.empty :=
    ByteArray.extract_eq_empty_iff.2 (by omega)
  rw [ByteArray.extract_append, Nat.sub_eq_zero_of_le h, none, ByteArray.append_empty]

theorem walk_append (l : Layout S α) (bytes more : ByteArray) (s : S) (offset : Nat)
    {a : α} {stop : Nat} (h : l.walk bytes s offset = .found a stop) :
    l.walk (bytes ++ more) s offset = .found a stop := by
  fun_induction walk l bytes s offset with
  | case1 s offset fits s' taken ih =>
    rw [walk, dif_pos (by rw [ByteArray.size_append]; omega), field_append fits, taken]
    exact ih h
  | case2 s offset fits a taken =>
    rw [walk, dif_pos (by rw [ByteArray.size_append]; omega), field_append fits, taken]
    exact h
  | case3 => simp at h
  | case4 => simp at h

/-- More bytes behind those that a result was found in change nothing. -/
theorem parse_append (l : Layout S α) (bytes more : ByteArray) (s : S) (offset : Nat)
    {found : α × Nat} (h : l.parse bytes s offset = .ok found) :
    l.parse (bytes ++ more) s offset = .ok found :=
  (l.parse_eq_ok_iff _ _ _).2 (l.walk_append _ _ _ _ ((l.parse_eq_ok_iff _ _ _).1 h))

end Layout

end ImageCache
