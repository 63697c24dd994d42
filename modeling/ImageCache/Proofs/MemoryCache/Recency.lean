import ImageCache.MemoryCache
import Mathlib.Data.List.Infix

namespace ImageCache

namespace MemoryCache

variable {α : Type}

/-- What is asked of a memory tier. A value comes with its cost. -/
inductive Call (α : Type) where
  | get (key : String)
  | set (key : String) (value : α) (cost : UInt64)
  | remove (key : String)
  | clear

def answer (c : MemoryCache α) : Call α → Option α × MemoryCache α
  | .get key => c.get key
  | .set key value cost => (none, c.set key value cost)
  | .remove key => c.remove key
  | .clear => (none, c.clear)

def after (c : MemoryCache α) (calls : List (Call α)) : MemoryCache α :=
  calls.foldl (fun c call => (c.answer call).2) c

def totalCost : List (Slot α) → Nat
  | [] => 0
  | slot :: slots => slot.cost.toNat + totalCost slots

/-- The slots at the recent end that keep to the limit together, as many as can be. -/
def latest (limit : Nat) (slots : List (Slot α)) : List (Slot α) :=
  (slots.tails.find? (totalCost · ≤ limit)).getD []

/-- The list a tier stands for, the most recently used slot last: how it answers, and what becomes
of it. -/
def recency (limits : MemoryLimits) (slots : List (Slot α)) :
    Call α → Option α × List (Slot α)
  | .get key =>
    match slots.find? (·.key == key) with
    | some slot => (some slot.value, slots.filter (·.key != key) ++ [slot])
    | none => (none, slots)
  | .set key value cost =>
    let others := slots.filter (·.key != key)
    if limits.maxSingle < cost then (none, others)
    else (none, latest limits.maxCost.toNat (others ++ [⟨key, value, cost⟩]))
  | .remove key =>
    ((slots.find? (·.key == key)).map (·.value), slots.filter (·.key != key))
  | .clear => (none, [])

def recent (limits : MemoryLimits) (slots : List (Slot α)) (calls : List (Call α)) :
    List (Slot α) :=
  calls.foldl (fun slots call => (recency limits slots call).2) slots

/-- A value that is let in does not bring the total to 64 bits or more, before others make room. -/
def InRange (limits : MemoryLimits) (slots : List (Slot α)) : Call α → Prop
  | .set key _ cost =>
    cost ≤ limits.maxSingle → totalCost (slots.filter (·.key != key)) + cost.toNat < UInt64.size
  | _ => True

def StaysInRange (limits : MemoryLimits) : List (Slot α) → List (Call α) → Prop
  | _, [] => True
  | slots, call :: calls =>
    InRange limits slots call ∧ StaysInRange limits (recency limits slots call).2 calls

instance InRange.decidable (limits : MemoryLimits) (slots : List (Slot α)) :
    (call : Call α) → Decidable (InRange limits slots call)
  | .set key _ cost =>
    inferInstanceAs (Decidable (cost ≤ limits.maxSingle →
      totalCost (slots.filter (·.key != key)) + cost.toNat < UInt64.size))
  | .get _ => .isTrue trivial
  | .remove _ => .isTrue trivial
  | .clear => .isTrue trivial

instance StaysInRange.decidable (limits : MemoryLimits) :
    (slots : List (Slot α)) → (calls : List (Call α)) → Decidable (StaysInRange limits slots calls)
  | _, [] => .isTrue trivial
  | slots, call :: calls =>
    have := StaysInRange.decidable limits (recency limits slots call).2 calls
    inferInstanceAs (Decidable (InRange limits slots call ∧
      StaysInRange limits (recency limits slots call).2 calls))

@[simp]
theorem totalCost_nil : totalCost ([] : List (Slot α)) = 0 := rfl

@[simp]
theorem totalCost_cons (slot : Slot α) (slots : List (Slot α)) :
    totalCost (slot :: slots) = slot.cost.toNat + totalCost slots := rfl

@[simp]
theorem totalCost_append (slots more : List (Slot α)) :
    totalCost (slots ++ more) = totalCost slots + totalCost more := by
  induction slots with
  | nil => simp
  | cons slot slots ih => simp [ih, Nat.add_assoc]

@[simp]
theorem latest_nil (limit : Nat) : latest limit ([] : List (Slot α)) = [] := by
  simp [latest]

theorem latest_cons (limit : Nat) (slot : Slot α) (slots : List (Slot α)) :
    latest limit (slot :: slots) =
      if totalCost (slot :: slots) ≤ limit then slot :: slots else latest limit slots := by
  by_cases hfits : totalCost (slot :: slots) ≤ limit
  · simp only [latest, List.tails_cons, List.find?_cons, hfits, decide_true, if_true,
      Option.getD_some]
  · simp only [latest, List.tails_cons, List.find?_cons, hfits, decide_false, if_false]

/-- Of all runs at the recent end that keep to the limit, the longest is kept. -/
theorem latest_longest (limit : Nat) (slots : List (Slot α)) :
    latest limit slots <:+ slots ∧ totalCost (latest limit slots) ≤ limit ∧
      ∀ other, other <:+ slots → totalCost other ≤ limit → other <:+ latest limit slots := by
  induction slots with
  | nil => simp
  | cons slot slots ih =>
    obtain ⟨hsuffix, hfits, hlongest⟩ := ih
    rw [latest_cons]
    by_cases hall : totalCost (slot :: slots) ≤ limit
    · rw [if_pos hall]
      exact ⟨List.suffix_refl _, hall, fun other h _ => h⟩
    · rw [if_neg hall]
      refine ⟨hsuffix.trans (List.suffix_cons _ _), hfits, fun other h hother => ?_⟩
      rcases List.suffix_cons_iff.mp h with rfl | h
      · exact absurd hother hall
      · exact hlongest other h hother

/-- Slots are dropped from the front only. -/
theorem evict_suffix (limit : UInt64) (slots : List (Slot α)) (total : UInt64) :
    (evict limit slots total).1 <:+ slots := by
  induction slots generalizing total with
  | nil => exact List.suffix_refl _
  | cons slot slots ih =>
    rw [evict]
    split
    · exact (ih _).trans (List.suffix_cons _ _)
    · exact List.suffix_refl _

/-- To drop slots from the front until the total keeps to the limit leaves the longest run that
does. -/
theorem evict_latest (limit : UInt64) (slots : List (Slot α)) (total : UInt64)
    (h : total.toNat = totalCost slots) :
    (evict limit slots total).1 = latest limit.toNat slots ∧
      (evict limit slots total).2.toNat = totalCost (latest limit.toNat slots) := by
  induction slots generalizing total with
  | nil => simp [evict, h]
  | cons slot slots ih =>
    have hsum : total.toNat = slot.cost.toNat + totalCost slots := by
      simpa using h
    rw [evict, latest_cons, ← h]
    by_cases hover : limit < total
    · have hover' := UInt64.lt_iff_toNat_lt.mp hover
      have hrest : (total - slot.cost).toNat = totalCost slots := by
        rw [UInt64.toNat_sub_of_le _ _ (UInt64.le_iff_toNat_le.mpr (by omega))]
        omega
      rw [if_pos hover, if_neg (Nat.not_le.mpr hover')]
      exact ih _ hrest
    · have hfits := UInt64.le_iff_toNat_le.mp (UInt64.not_lt.mp hover)
      rw [if_neg hover, if_pos hfits]
      exact ⟨rfl, h⟩

/-- The total on the books is what the slots cost, and each key has one slot at most. -/
structure Balanced (c : MemoryCache α) : Prop where
  cost : c.cost.toNat = totalCost c.slots
  keys : (c.slots.map (·.key)).Nodup

theorem balanced_empty (limits : MemoryLimits) : (empty limits : MemoryCache α).Balanced :=
  ⟨rfl, List.nodup_nil⟩

/-- The slot of a key and those of the others make up the whole. -/
theorem totalCost_others {slots : List (Slot α)} {key : String} {slot : Slot α}
    (unique : (slots.map (·.key)).Nodup) (h : slots.find? (·.key == key) = some slot) :
    totalCost (slots.filter (·.key != key)) + slot.cost.toNat = totalCost slots := by
  induction slots with
  | nil => simp at h
  | cons head slots ih =>
    simp only [List.map_cons, List.nodup_cons] at unique
    obtain ⟨hfresh, unique⟩ := unique
    by_cases hkey : head.key = key
    · obtain rfl : head = slot := by simpa [hkey] using h
      have hothers : slots.filter (·.key != key) = slots := by
        apply List.filter_eq_self.mpr
        intro s hs
        have hne : s.key ≠ key := fun he => hfresh (List.mem_map.mpr ⟨s, hs, he.trans hkey.symm⟩)
        simpa using hne
      simp [hkey, hothers, Nat.add_comm]
    · have hrest : slots.find? (·.key == key) = some slot := by simpa [hkey] using h
      simp [hkey, ← ih unique hrest, Nat.add_assoc]

/-- To take slots out leaves no key twice. -/
theorem others_keys {slots : List (Slot α)} (unique : (slots.map (·.key)).Nodup) (key : String) :
    ((slots.filter (·.key != key)).map (·.key)).Nodup :=
  unique.sublist (List.filter_sublist.map _)

/-- A slot put behind those of the other keys has a key of its own. -/
theorem placed_keys {slots : List (Slot α)} (unique : (slots.map (·.key)).Nodup)
    (slot : Slot α) :
    ((slots.filter (·.key != slot.key) ++ [slot]).map (·.key)).Nodup := by
  rw [List.map_append, List.nodup_append]
  refine ⟨others_keys unique _, by simp, ?_⟩
  intro a ha b hb
  simp only [List.mem_map, List.mem_filter, bne_iff_ne] at ha
  obtain ⟨s, ⟨-, hne⟩, rfl⟩ := ha
  obtain rfl : b = slot.key := by simpa using hb
  exact hne

@[simp]
theorem erase_limits (c : MemoryCache α) (key : String) : (c.erase key).limits = c.limits := by
  unfold erase
  split <;> rfl

/-- A key that has no slot leaves all slots to the others. -/
theorem others_of_absent {slots : List (Slot α)} {key : String}
    (h : slots.find? (·.key == key) = none) : slots.filter (·.key != key) = slots := by
  apply List.filter_eq_self.mpr
  intro s hs
  simpa using List.find?_eq_none.mp h s hs

@[simp]
theorem erase_slots (c : MemoryCache α) (key : String) :
    (c.erase key).slots = c.slots.filter (·.key != key) := by
  unfold erase
  split
  · rfl
  · next habsent => exact (others_of_absent habsent).symm

@[simp]
theorem answer_limits (c : MemoryCache α) (call : Call α) :
    (c.answer call).2.limits = c.limits := by
  cases call with
  | get key =>
    simp only [answer, get]
    split <;> rfl
  | set key value cost =>
    simp only [answer, set]
    split <;> simp
  | remove key => exact erase_limits c key
  | clear => rfl

theorem mem_get {c : MemoryCache α} {key : String} {slot : Slot α}
    (h : slot ∈ (c.get key).2.slots) : slot ∈ c.slots := by
  unfold get at h
  split at h
  · next used hfound =>
    rcases List.mem_append.mp h with h | h
    · exact (List.mem_filter.mp h).1
    · rw [List.mem_singleton.mp h]
      exact List.mem_of_find?_eq_some hfound
  · exact h

/-- What is held after a value was put in was held before, or is that value. -/
theorem mem_set {c : MemoryCache α} {key : String} {value : α} {cost : UInt64} {slot : Slot α}
    (h : slot ∈ (c.set key value cost).slots) : slot ∈ c.slots ∨ slot = ⟨key, value, cost⟩ := by
  have hothers : ∀ s ∈ (c.erase key).slots, s ∈ c.slots := by
    intro s hs
    rw [erase_slots] at hs
    exact (List.mem_filter.mp hs).1
  simp only [set] at h
  split at h
  · exact .inl (hothers slot h)
  · rcases List.mem_append.mp ((evict_suffix _ _ _).subset h) with h | h
    · exact .inl (hothers slot h)
    · exact .inr (List.mem_singleton.mp h)

namespace Balanced

variable {c : MemoryCache α}

theorem erase (h : c.Balanced) (key : String) : (c.erase key).Balanced := by
  refine ⟨?_, erase_slots c key ▸ others_keys h.keys key⟩
  have hcost := h.cost
  rw [erase_slots]
  unfold MemoryCache.erase
  split
  · next slot hfound =>
    have hsum := totalCost_others h.keys hfound
    change (c.cost - slot.cost).toNat = _
    rw [UInt64.toNat_sub_of_le _ _ (UInt64.le_iff_toNat_le.mpr (by omega))]
    omega
  · next habsent => rw [others_of_absent habsent, hcost]

theorem get (h : c.Balanced) (key : String) :
    (c.get key).2.slots = (recency c.limits c.slots (.get key)).2 ∧ (c.get key).2.Balanced := by
  simp only [MemoryCache.get, recency, find?, others]
  cases hfound : c.slots.find? (·.key == key) with
  | none => exact ⟨rfl, h⟩
  | some slot =>
    have hkey : slot.key = key := by simpa using List.find?_some hfound
    refine ⟨rfl, ?_, hkey ▸ placed_keys h.keys slot⟩
    have hsum := totalCost_others h.keys hfound
    simp only [totalCost_append, totalCost_cons, totalCost_nil, Nat.add_zero, hsum]
    exact h.cost

/-- With a new value in, and its cost on the books, the total is that of all slots again. -/
theorem entered (h : c.Balanced) {key : String} (value : α) {cost : UInt64}
    (range : totalCost (c.slots.filter (·.key != key)) + cost.toNat < UInt64.size) :
    ((c.erase key).cost + cost).toNat =
      totalCost (c.slots.filter (·.key != key) ++ [⟨key, value, cost⟩]) := by
  have hbooks := (h.erase key).cost
  rw [erase_slots] at hbooks
  rw [UInt64.toNat_add, hbooks, Nat.mod_eq_of_lt range]
  simp

theorem set (h : c.Balanced) {key : String} {value : α} {cost : UInt64}
    (range : InRange c.limits c.slots (.set key value cost)) :
    (c.set key value cost).slots = (recency c.limits c.slots (.set key value cost)).2 ∧
      (c.set key value cost).Balanced := by
  simp only [MemoryCache.set, recency, erase_limits, erase_slots]
  have herased := h.erase key
  by_cases hcostly : c.limits.maxSingle < cost
  · simp only [hcostly, if_true]
    exact ⟨erase_slots c key, herased⟩
  · simp only [hcostly, if_false]
    have hsum := h.entered value (range (UInt64.not_lt.mp hcostly))
    obtain ⟨hslots, hcost⟩ := evict_latest c.limits.maxCost _ _ hsum
    refine ⟨hslots, ?_, ?_⟩
    · simp only [hslots, hcost]
    · simp only [hslots]
      have hsuffix := (latest_longest c.limits.maxCost.toNat
        (c.slots.filter (·.key != key) ++ [⟨key, value, cost⟩])).1
      exact (placed_keys h.keys ⟨key, value, cost⟩).sublist (hsuffix.sublist.map _)

/-- A tier goes on as the list of its slots does. -/
theorem answer (h : c.Balanced) {call : Call α} (range : InRange c.limits c.slots call) :
    (c.answer call).2.slots = (recency c.limits c.slots call).2 ∧
      (c.answer call).2.Balanced := by
  cases call with
  | get key => exact h.get key
  | set key value cost => exact h.set range
  | remove key => exact ⟨erase_slots c key, h.erase key⟩
  | clear => exact ⟨rfl, balanced_empty c.limits⟩

theorem after (h : c.Balanced) {calls : List (Call α)}
    (range : StaysInRange c.limits c.slots calls) :
    (c.after calls).slots = recent c.limits c.slots calls ∧ (c.after calls).Balanced := by
  induction calls generalizing c with
  | nil => exact ⟨rfl, h⟩
  | cons call calls ih =>
    obtain ⟨hcall, hcalls⟩ := range
    obtain ⟨hslots, hbalanced⟩ := h.answer hcall
    have hrest := ih hbalanced (by rw [answer_limits, hslots]; exact hcalls)
    rw [answer_limits, hslots] at hrest
    exact hrest

end Balanced

/-- What a tier answers lies in its slots. -/
theorem answer_reply (c : MemoryCache α) (call : Call α) :
    (c.answer call).1 = (recency c.limits c.slots call).1 := by
  cases call with
  | get key =>
    simp only [answer, get, recency, find?]
    cases c.slots.find? (·.key == key) <;> rfl
  | set key value cost =>
    simp only [answer, recency]
    split <;> rfl
  | remove key => rfl
  | clear => rfl

@[simp]
theorem after_limits (c : MemoryCache α) (calls : List (Call α)) :
    (c.after calls).limits = c.limits := by
  induction calls generalizing c with
  | nil => rfl
  | cons call calls ih => exact (ih _).trans (answer_limits c call)

/-- A memory tier holds the list it stands for and answers as that does, after any calls that keep
the total in range. -/
theorem follows_recency (limits : MemoryLimits) (calls : List (Call α))
    (range : StaysInRange limits [] calls) :
    ((empty limits).after calls).slots = recent limits [] calls ∧
      ∀ call, (((empty limits).after calls).answer call).1 =
        (recency limits (recent limits [] calls) call).1 := by
  have hslots := ((balanced_empty limits).after range).1
  refine ⟨hslots, fun call => ?_⟩
  rw [answer_reply, after_limits, hslots]
  rfl

/-- Room is for ten together and six at most for one value; before "c" comes, "a" is read again. -/
def fiveCalls : List (Call Nat) :=
  [.set "a" 1 4, .set "b" 2 4, .get "a", .set "c" 3 5, .set "d" 4 7]

/-- A value that was read outlasts one that was not, and one too costly by itself is not let in. -/
theorem read_outlasts_unread :
    StaysInRange ⟨10, 6⟩ [] fiveCalls ∧
      ((empty ⟨10, 6⟩).after fiveCalls).slots.map (·.key) = ["a", "c"] ∧
      (((empty ⟨10, 6⟩).after fiveCalls).answer (.get "b")).1 = none := by
  have hrange : StaysInRange ⟨10, 6⟩ [] fiveCalls := by decide +kernel
  obtain ⟨hslots, hreplies⟩ := follows_recency ⟨10, 6⟩ fiveCalls hrange
  refine ⟨hrange, ?_, ?_⟩
  · rw [hslots]
    decide +kernel
  · rw [hreplies]
    decide +kernel

end MemoryCache

end ImageCache
