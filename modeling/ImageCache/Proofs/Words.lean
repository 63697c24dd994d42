namespace ImageCache.Word

def plus? (a b : UInt64) : Option UInt64 :=
  if a.toNat + b.toNat < UInt64.size then some (a + b) else none

def minus? (a b : UInt64) : Option UInt64 :=
  if b ≤ a then some (a - b) else none

def times? (a b : UInt64) : Option UInt64 :=
  if a.toNat * b.toNat < UInt64.size then some (a * b) else none

/-- The same number in half as many bits, if it fits. -/
def narrow? (a : UInt64) : Option UInt32 :=
  if a.toNat < UInt32.size then some a.toUInt32 else none

theorem plus?_eq {a b : UInt64} (h : a.toNat + b.toNat < UInt64.size) :
    plus? a b = some (a + b) := if_pos h

theorem minus?_eq {a b : UInt64} (h : b.toNat ≤ a.toNat) : minus? a b = some (a - b) :=
  if_pos (UInt64.le_iff_toNat_le.mpr h)

theorem times?_eq {a b : UInt64} (h : a.toNat * b.toNat < UInt64.size) :
    times? a b = some (a * b) := if_pos h

theorem narrow?_eq {a : UInt64} (h : a.toNat < UInt32.size) : narrow? a = some a.toUInt32 :=
  if_pos h

theorem toNat_sub {a b : UInt64} (h : b.toNat ≤ a.toNat) :
    (a - b).toNat = a.toNat - b.toNat :=
  UInt64.toNat_sub_of_le a b (UInt64.le_iff_toNat_le.mpr h)

theorem toNat_add {a b : UInt64} (h : a.toNat + b.toNat < UInt64.size) :
    (a + b).toNat = a.toNat + b.toNat := by
  rw [UInt64.toNat_add, Nat.mod_eq_of_lt h]

theorem toNat_mul {a b : UInt64} (h : a.toNat * b.toNat < UInt64.size) :
    (a * b).toNat = a.toNat * b.toNat := by
  rw [UInt64.toNat_mul, Nat.mod_eq_of_lt h]

end ImageCache.Word
