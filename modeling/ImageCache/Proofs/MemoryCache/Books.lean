import ImageCache.Proofs.MemoryCache.Recency
import ImageCache.Proofs.Words

namespace ImageCache

namespace MemoryCache

variable {α : Type} {c : MemoryCache α}

/-- To take an entry out, unless its cost is more than the total. -/
def erase? (c : MemoryCache α) (key : String) : Option (MemoryCache α) :=
  match c.find? key with
  | some slot => do
    let cost ← Word.minus? c.cost slot.cost
    pure { c with slots := c.others key, cost := cost }
  | none => pure c

def evict? (limit : UInt64) : List (Slot α) → UInt64 → Option (List (Slot α) × UInt64)
  | [], total => if limit < total then none else some ([], total)
  | slot :: rest, total =>
    if limit < total then do evict? limit rest (← Word.minus? total slot.cost)
    else some (slot :: rest, total)

def set? (c : MemoryCache α) (key : String) (value : α) (cost : UInt64) :
    Option (MemoryCache α) := do
  let c ← c.erase? key
  if c.limits.maxSingle < cost then pure c
  else
    let total ← Word.plus? c.cost cost
    let (slots, total) ← evict? c.limits.maxCost (c.slots ++ [⟨key, value, cost⟩]) total
    pure { c with slots := slots, cost := total }

def answer? (c : MemoryCache α) : Call α → Option (Option α × MemoryCache α)
  | .get key => pure (c.get key)
  | .set key value cost => return (none, ← c.set? key value cost)
  | .remove key => return ((c.find? key).map (·.value), ← c.erase? key)
  | .clear => pure (none, c.clear)

/-- What is answered to these calls and the tier after them, unless the books break. -/
def run? (c : MemoryCache α) : List (Call α) → Option (List (Option α) × MemoryCache α)
  | [] => pure ([], c)
  | call :: calls => do
    let (reply, c) ← c.answer? call
    let (replies, c) ← c.run? calls
    pure (reply :: replies, c)

def replies (c : MemoryCache α) : List (Call α) → List (Option α)
  | [] => []
  | call :: calls => (c.answer call).1 :: (c.answer call).2.replies calls

/-- One more value fits into the word beside a full tier. -/
def Call.HasRoom (limits : MemoryLimits) : Call α → Prop
  | .set _ _ cost => limits.maxCost.toNat + cost.toNat < UInt64.size
  | _ => True

instance Call.HasRoom.decidable (limits : MemoryLimits) :
    (call : Call α) → Decidable (call.HasRoom limits)
  | .set _ _ cost => inferInstanceAs (Decidable (limits.maxCost.toNat + cost.toNat < UInt64.size))
  | .get _ => .isTrue trivial
  | .remove _ => .isTrue trivial
  | .clear => .isTrue trivial

/-- A tier with its books in balance and all its limits kept. -/
structure Sound (c : MemoryCache α) : Prop where
  balanced : c.Balanced
  total : c.cost ≤ c.limits.maxCost
  single : ∀ slot ∈ c.slots, slot.cost ≤ c.limits.maxSingle

theorem sound_empty (limits : MemoryLimits) : (empty limits : MemoryCache α).Sound :=
  ⟨balanced_empty limits, UInt64.zero_le, by simp [empty]⟩

/-- As long as the total is explained by the slots, dropping some never breaks it. -/
theorem evict?_eq (limit : UInt64) (slots : List (Slot α)) (total : UInt64)
    (h : total.toNat = totalCost slots) :
    evict? limit slots total = some (evict limit slots total) := by
  induction slots generalizing total with
  | nil =>
    have hwithin : ¬ limit < total := by
      rw [UInt64.lt_iff_toNat_lt, h]
      exact Nat.not_lt_zero _
    rw [evict?, if_neg hwithin, evict]
  | cons slot slots ih =>
    rw [evict?, evict]
    by_cases hover : limit < total
    · rw [totalCost_cons] at h
      have hle : slot.cost.toNat ≤ total.toNat := by omega
      have hrest : (total - slot.cost).toNat = totalCost slots := by
        rw [Word.toNat_sub hle]
        omega
      rw [if_pos hover, if_pos hover, Word.minus?_eq hle]
      exact ih _ hrest
    · rw [if_neg hover, if_neg hover]

theorem cost_le_totalCost {slots : List (Slot α)} {slot : Slot α} (h : slot ∈ slots) :
    slot.cost.toNat ≤ totalCost slots := by
  induction slots with
  | nil => cases h
  | cons head slots ih =>
    rw [totalCost_cons]
    rcases List.mem_cons.mp h with rfl | h
    · exact Nat.le_add_right _ _
    · exact Nat.le_trans (ih h) (Nat.le_add_left _ _)

namespace Balanced

theorem erase? (h : c.Balanced) (key : String) : c.erase? key = some (c.erase key) := by
  unfold MemoryCache.erase? MemoryCache.erase
  cases hfound : c.find? key with
  | none => rfl
  | some slot =>
    have hle : slot.cost.toNat ≤ c.cost.toNat := by
      rw [h.cost]
      exact cost_le_totalCost (List.mem_of_find?_eq_some hfound)
    simp only [Word.minus?_eq hle]
    rfl

/-- Without the entry of a key the total is no larger than with it. -/
theorem erase_cost (h : c.Balanced) (key : String) : (c.erase key).cost ≤ c.cost := by
  rw [UInt64.le_iff_toNat_le, (h.erase key).cost, h.cost, erase_slots]
  cases hfound : c.slots.find? (·.key == key) with
  | none => rw [others_of_absent hfound]
  | some slot =>
    have hsum := totalCost_others h.keys hfound
    omega

end Balanced

namespace Sound

theorem erase (h : c.Sound) (key : String) : (c.erase key).Sound := by
  refine ⟨h.balanced.erase key, ?_, ?_⟩
  · rw [erase_limits]
    exact UInt64.le_trans (h.balanced.erase_cost key) h.total
  · intro slot hslot
    rw [erase_slots] at hslot
    rw [erase_limits]
    exact h.single slot (List.mem_filter.mp hslot).1

theorem get (h : c.Sound) (key : String) : (c.get key).2.Sound := by
  have hlimits : (c.get key).2.limits = c.limits := answer_limits c (.get key)
  have hcost : (c.get key).2.cost = c.cost := by
    unfold MemoryCache.get
    split <;> rfl
  refine ⟨(h.balanced.get key).2, ?_, ?_⟩
  · rw [hlimits, hcost]
    exact h.total
  · intro slot hslot
    rw [hlimits]
    exact h.single slot (mem_get hslot)

/-- A full tier has room for one more value, so one that is not full has. -/
theorem inRange (h : c.Sound) {call : Call α} (room : call.HasRoom c.limits) :
    InRange c.limits c.slots call := by
  cases call with
  | set key value cost =>
    intro _
    have hothers := (h.erase key).total
    rw [erase_limits, UInt64.le_iff_toNat_le, (h.erase key).balanced.cost, erase_slots] at hothers
    exact Nat.lt_of_le_of_lt (Nat.add_le_add_right hothers _) room
  | get key => trivial
  | remove key => trivial
  | clear => trivial

/-- A value is let in at its own cost, and others make room for it. -/
theorem set (h : c.Sound) {key : String} {value : α} {cost : UInt64}
    (room : (Call.set key value cost).HasRoom c.limits) :
    c.set? key value cost = some (c.set key value cost) ∧ (c.set key value cost).Sound := by
  have herased := h.erase key
  have hlimits : (c.set key value cost).limits = c.limits := answer_limits c (.set key value cost)
  have hbalanced := (h.balanced.set (h.inRange room)).2
  by_cases hcostly : c.limits.maxSingle < cost
  · have hset : c.set key value cost = c.erase key := by
      simp only [MemoryCache.set, erase_limits, hcostly, if_true]
    rw [hset]
    refine ⟨?_, herased⟩
    simp only [set?, h.balanced.erase? key, Option.bind_eq_bind, Option.bind_some, erase_limits,
      hcostly, if_true]
    rfl
  · have hroom := h.inRange room (UInt64.not_lt.mp hcostly)
    have hfits : (c.erase key).cost.toNat + cost.toNat < UInt64.size := by
      rw [herased.balanced.cost, erase_slots]
      exact hroom
    have hsum := h.balanced.entered value hroom
    obtain ⟨-, htotal⟩ := evict_latest c.limits.maxCost _ _ hsum
    refine ⟨?_, hbalanced, ?_, ?_⟩
    · simp only [set?, h.balanced.erase? key, Option.bind_eq_bind, Option.bind_some, erase_limits,
        erase_slots, hcostly, if_false, Word.plus?_eq hfits, evict?_eq _ _ _ hsum, MemoryCache.set]
      rfl
    · rw [hlimits, UInt64.le_iff_toNat_le]
      simp only [MemoryCache.set, erase_limits, erase_slots, hcostly, if_false, htotal]
      exact (latest_longest c.limits.maxCost.toNat _).2.1
    · intro slot hslot
      rw [hlimits]
      rcases mem_set hslot with held | rfl
      · exact h.single slot held
      · exact UInt64.not_lt.mp hcostly

/-- No call breaks the books of a sound tier, and it stays sound. -/
theorem answer (h : c.Sound) {call : Call α} (room : call.HasRoom c.limits) :
    c.answer? call = some (c.answer call) ∧ (c.answer call).2.Sound := by
  cases call with
  | get key => exact ⟨rfl, h.get key⟩
  | set key value cost =>
    obtain ⟨hset, hsound⟩ := h.set room
    exact ⟨by simp only [answer?, hset]; rfl, hsound⟩
  | remove key => exact ⟨by simp only [answer?, h.balanced.erase? key]; rfl, h.erase key⟩
  | clear => exact ⟨rfl, sound_empty c.limits⟩

theorem run (h : c.Sound) {calls : List (Call α)} (room : ∀ call ∈ calls, call.HasRoom c.limits) :
    c.run? calls = some (c.replies calls, c.after calls) ∧ (c.after calls).Sound := by
  induction calls generalizing c with
  | nil => exact ⟨rfl, h⟩
  | cons call calls ih =>
    obtain ⟨hcall, hcalls⟩ := List.forall_mem_cons.mp room
    obtain ⟨hanswer, hsound⟩ := h.answer hcall
    obtain ⟨hrun, hafter⟩ := ih hsound (by rwa [answer_limits])
    refine ⟨?_, hafter⟩
    simp only [run?, hanswer, Option.bind_eq_bind, Option.bind_some, hrun]
    rfl

end Sound

/-- A slot that is held after a call was held before, or is what the call put in. -/
theorem mem_answer {call : Call α} {slot : Slot α} (h : slot ∈ (c.answer call).2.slots) :
    slot ∈ c.slots ∨ call = .set slot.key slot.value slot.cost := by
  cases call with
  | get key => exact .inl (mem_get h)
  | set key value cost =>
    rcases mem_set h with held | rfl
    · exact .inl held
    · exact .inr rfl
  | remove key =>
    simp only [answer, remove, erase_slots] at h
    exact .inl (List.mem_filter.mp h).1
  | clear => cases h

theorem mem_after {calls : List (Call α)} {slot : Slot α} (h : slot ∈ (c.after calls).slots) :
    slot ∈ c.slots ∨ .set slot.key slot.value slot.cost ∈ calls := by
  induction calls generalizing c with
  | nil => exact .inl h
  | cons call calls ih =>
    rcases ih h with held | called
    · rcases mem_answer held with before | rfl
      · exact .inl before
      · exact .inr List.mem_cons_self
    · exact .inr (List.mem_cons_of_mem _ called)

/-- After any calls whose values find room in the word beside a full tier, the total on the books is
the cost of the slots held and keeps to its limit, no slot costs more than one may, no key is held
twice, each slot is one that was put in, and nothing broke on the way. -/
theorem books_kept (limits : MemoryLimits) (calls : List (Call α))
    (room : ∀ call ∈ calls, call.HasRoom limits) :
    ∃ c, (empty limits).run? calls = some ((empty limits).replies calls, c) ∧
      c = (empty limits).after calls ∧
      c.cost.toNat = totalCost c.slots ∧ c.cost ≤ limits.maxCost ∧
      (∀ slot ∈ c.slots, slot.cost ≤ limits.maxSingle) ∧
      (c.slots.map (·.key)).Nodup ∧
      ∀ slot ∈ c.slots, .set slot.key slot.value slot.cost ∈ calls := by
  obtain ⟨hrun, hsound⟩ := (sound_empty limits).run room
  have htotal := hsound.total
  have hsingle := hsound.single
  rw [after_limits] at htotal hsingle
  refine ⟨_, hrun, rfl, hsound.balanced.cost, htotal, hsingle, hsound.balanced.keys, ?_⟩
  intro slot hslot
  exact (mem_after hslot).resolve_left List.not_mem_nil

/-- Without the room the word overflows while the second value is let in. -/
example : ((empty ⟨18446744073709551615, 18446744073709551615⟩).run?
    [.set "a" 1 18446744073709551615, .set "b" 2 1]).isNone = true := by decide +kernel

/-- One entry is put in anew at a higher cost, one makes room, one is taken out, and one is too
costly. -/
def sixCalls : List (Call Nat) :=
  [.set "a" 1 4, .set "b" 2 3, .set "a" 3 6, .set "c" 4 3, .remove "a", .set "c" 5 7]

/-- The tier is empty in the end, and so are its books. -/
theorem sixCalls_kept : (∀ call ∈ sixCalls, call.HasRoom ⟨10, 6⟩) ∧
    ∃ c, (empty ⟨10, 6⟩).run? sixCalls = some ([none, none, none, none, some 3, none], c) ∧
      c.slots = [] ∧ c.cost = 0 := by
  have room : ∀ call ∈ sixCalls, call.HasRoom ⟨10, 6⟩ := by decide +kernel
  obtain ⟨c, hrun, hafter, hcost, -⟩ := books_kept ⟨10, 6⟩ sixCalls room
  have hslots : c.slots = [] := by
    have hnone : ((empty ⟨10, 6⟩).after sixCalls).slots.isEmpty = true := by decide +kernel
    rw [hafter]
    exact List.isEmpty_iff.mp hnone
  refine ⟨room, c, ?_, hslots, ?_⟩
  · rw [hrun]
    exact congrArg (fun replies => some (replies, c)) (by decide +kernel)
  · rw [hslots] at hcost
    exact UInt64.toNat_inj.mp hcost

end MemoryCache

end ImageCache
