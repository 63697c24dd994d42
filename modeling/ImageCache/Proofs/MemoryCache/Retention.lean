import ImageCache.Proofs.MemoryCache.Recency
import Mathlib.Algebra.BigOperators.Group.Finset.Basic
import Mathlib.Algebra.Order.BigOperators.Group.Finset

namespace ImageCache

namespace MemoryCache

variable {α : Type} {c : MemoryCache α}

/-- The keys that a call makes the most recently used: that of a value put in, or of one that is
held and read. -/
def uses (c : MemoryCache α) : Call α → Finset String
  | .set key _ _ => {key}
  | .get key => if (c.find? key).isSome then {key} else ∅
  | .remove _ => ∅
  | .clear => ∅

def used (c : MemoryCache α) : List (Call α) → Finset String
  | [] => ∅
  | call :: calls => c.uses call ∪ (c.answer call).2.used calls

def costOf (c : MemoryCache α) (key : String) : Nat :=
  ((c.find? key).map (·.cost.toNat)).getD 0

def Call.costOf (key : String) : Call α → Nat
  | .set k _ cost => if k = key then cost.toNat else 0
  | _ => 0

/-- The most that a key costs in the course of these calls: as it is put in by one of them, or held
after one. -/
def peak (c : MemoryCache α) (key : String) : List (Call α) → Nat
  | [] => 0
  | call :: calls =>
    max (call.costOf key) (max ((c.answer call).2.costOf key) ((c.answer call).2.peak key calls))

/-- A call that neither puts a key in nor takes it out. -/
def Call.Spares (key : String) : Call α → Prop
  | .get _ => True
  | .set k _ _ => k ≠ key
  | .remove k => k ≠ key
  | .clear => False

instance Call.Spares.decidable (key : String) : (call : Call α) → Decidable (call.Spares key)
  | .get _ => .isTrue trivial
  | .set k _ _ => inferInstanceAs (Decidable (k ≠ key))
  | .remove k => inferInstanceAs (Decidable (k ≠ key))
  | .clear => .isFalse id

/-- The total on the books is what the slots cost, up to whole turns of its word, and each key has
one slot at most. -/
structure Reckoned (c : MemoryCache α) : Prop where
  cost : c.cost = UInt64.ofNat (totalCost c.slots)
  keys : (c.slots.map (·.key)).Nodup

theorem reckoned_empty (limits : MemoryLimits) : (empty limits : MemoryCache α).Reckoned :=
  ⟨rfl, List.nodup_nil⟩

/-- With a slot the total is by its cost larger, whether it goes round or not. -/
theorem ofNat_totalCost_cons (slot : Slot α) (slots : List (Slot α)) :
    UInt64.ofNat (totalCost (slot :: slots)) = UInt64.ofNat (totalCost slots) + slot.cost := by
  rw [totalCost_cons, UInt64.ofNat_add, UInt64.ofNat_toNat, UInt64.add_comm]

/-- Slots that are dropped are taken off the total. -/
theorem evict_cost (limit : UInt64) (slots : List (Slot α)) :
    (evict limit slots (UInt64.ofNat (totalCost slots))).2 =
      UInt64.ofNat (totalCost (evict limit slots (UInt64.ofNat (totalCost slots))).1) := by
  induction slots with
  | nil => rfl
  | cons slot slots ih =>
    rw [evict]
    split
    · rw [ofNat_totalCost_cons, UInt64.add_sub_cancel]
      exact ih
    · rfl

/-- Slots at the recent end that keep to the limit together are never dropped. -/
theorem evict_keeps (limit : UInt64) (older recent : List (Slot α))
    (fits : totalCost recent ≤ limit.toNat) :
    ∃ left, (evict limit (older ++ recent) (UInt64.ofNat (totalCost (older ++ recent)))).1 =
      left ++ recent := by
  induction older with
  | nil =>
    -- All that is left keeps to the limit, and so the total has not gone round.
    have hwithin : ¬ limit < UInt64.ofNat (totalCost recent) := by
      have hword := limit.toNat_lt
      rw [UInt64.lt_iff_toNat_lt, UInt64.toNat_ofNat', Nat.mod_eq_of_lt (by omega)]
      omega
    refine ⟨[], ?_⟩
    cases recent with
    | nil => rfl
    | cons slot recent => rw [List.nil_append, evict, if_neg hwithin]
  | cons slot older ih =>
    rw [List.cons_append, evict]
    split
    · rw [ofNat_totalCost_cons, UInt64.add_sub_cancel]
      exact ih
    · exact ⟨slot :: older, rfl⟩

/-- A slot with a key of its own is the one that is found. -/
theorem find?_of_mem {slots : List (Slot α)} {slot : Slot α}
    (unique : (slots.map (·.key)).Nodup) (h : slot ∈ slots) :
    slots.find? (·.key == slot.key) = some slot := by
  induction slots with
  | nil => cases h
  | cons head slots ih =>
    simp only [List.map_cons, List.nodup_cons] at unique
    obtain ⟨hfresh, unique⟩ := unique
    rcases List.mem_cons.mp h with rfl | h
    · simp
    · have hne : head.key ≠ slot.key := fun he => hfresh (List.mem_map.mpr ⟨slot, h, he.symm⟩)
      simpa [hne] using ih unique h

/-- Slots with keys of their own, all of them from a set, cost no more than that allows. -/
theorem totalCost_le_sum {slots : List (Slot α)} {used : Finset String} {bound : String → Nat}
    (unique : (slots.map (·.key)).Nodup)
    (h : ∀ slot ∈ slots, slot.key ∈ used ∧ slot.cost.toNat ≤ bound slot.key) :
    totalCost slots ≤ ∑ x ∈ used, bound x := by
  induction slots generalizing used with
  | nil => exact Nat.zero_le _
  | cons head slots ih =>
    simp only [List.map_cons, List.nodup_cons] at unique
    obtain ⟨hfresh, unique⟩ := unique
    obtain ⟨⟨hused, hcost⟩, hslots⟩ := List.forall_mem_cons.mp h
    have hrest : totalCost slots ≤ ∑ x ∈ used.erase head.key, bound x := by
      apply ih unique
      intro slot hslot
      have hne : slot.key ≠ head.key := fun he => hfresh (List.mem_map.mpr ⟨slot, hslot, he⟩)
      exact ⟨Finset.mem_erase.mpr ⟨hne, (hslots slot hslot).1⟩, (hslots slot hslot).2⟩
    calc totalCost (head :: slots)
        = head.cost.toNat + totalCost slots := totalCost_cons head slots
      _ ≤ bound head.key + ∑ x ∈ used.erase head.key, bound x := Nat.add_le_add hcost hrest
      _ = ∑ x ∈ used, bound x := Finset.add_sum_erase used bound hused

namespace Reckoned

theorem erase (h : c.Reckoned) (key : String) : (c.erase key).Reckoned := by
  refine ⟨?_, erase_slots c key ▸ others_keys h.keys key⟩
  rw [erase_slots]
  unfold MemoryCache.erase
  split
  · next slot hfound =>
    have hsum := totalCost_others h.keys hfound
    change c.cost - slot.cost = _
    rw [h.cost, ← hsum, UInt64.ofNat_add, UInt64.ofNat_toNat, UInt64.add_sub_cancel]
  · next habsent => rw [others_of_absent habsent, h.cost]

theorem get (h : c.Reckoned) (key : String) : (c.get key).2.Reckoned := by
  simp only [MemoryCache.get, find?, others]
  cases hfound : c.slots.find? (·.key == key) with
  | none => exact h
  | some slot =>
    have hkey : slot.key = key := by simpa using List.find?_some hfound
    have hsum := totalCost_others h.keys hfound
    refine ⟨?_, hkey ▸ placed_keys h.keys slot⟩
    simp only [totalCost_append, totalCost_cons, totalCost_nil, Nat.add_zero, hsum]
    exact h.cost

/-- A value that is let in is put behind the others, and then slots are dropped by what all of them
cost. -/
theorem set_admitted (h : c.Reckoned) (key : String) (value : α) {cost : UInt64}
    (admitted : ¬ c.limits.maxSingle < cost) :
    let slots := c.slots.filter (·.key != key) ++ [⟨key, value, cost⟩]
    let evicted := evict c.limits.maxCost slots (UInt64.ofNat (totalCost slots))
    c.set key value cost = ⟨c.limits, evicted.1, evicted.2⟩ := by
  have hsum : (c.erase key).cost + cost =
      UInt64.ofNat (totalCost (c.slots.filter (·.key != key) ++ [⟨key, value, cost⟩])) := by
    rw [(h.erase key).cost, erase_slots, totalCost_append, UInt64.ofNat_add]
    simp
  simp only [MemoryCache.set, erase_limits, erase_slots, admitted, if_false, hsum]

theorem set_suffix (h : c.Reckoned) (key : String) (value : α) {cost : UInt64}
    (admitted : ¬ c.limits.maxSingle < cost) :
    (c.set key value cost).slots <:+ c.slots.filter (·.key != key) ++ [⟨key, value, cost⟩] := by
  rw [h.set_admitted key value admitted]
  exact evict_suffix _ _ _

theorem set_refused (key : String) (value : α) {cost : UInt64}
    (refused : c.limits.maxSingle < cost) : c.set key value cost = c.erase key := by
  simp only [MemoryCache.set, erase_limits, refused, if_true]

theorem set (h : c.Reckoned) (key : String) (value : α) (cost : UInt64) :
    (c.set key value cost).Reckoned := by
  by_cases hcostly : c.limits.maxSingle < cost
  · rw [set_refused key value hcostly]
    exact h.erase key
  · refine ⟨?_, ?_⟩
    · rw [h.set_admitted key value hcostly]
      exact evict_cost _ _
    · have hsuffix := h.set_suffix key value hcostly
      exact (placed_keys h.keys ⟨key, value, cost⟩).sublist (hsuffix.sublist.map _)

/-- No call gets the total wrong, up to whole turns, or puts a key in twice. -/
theorem answer (h : c.Reckoned) (call : Call α) : (c.answer call).2.Reckoned := by
  cases call with
  | get key => exact h.get key
  | set key value cost => exact h.set key value cost
  | remove key => exact h.erase key
  | clear => exact reckoned_empty c.limits

theorem after (h : c.Reckoned) (calls : List (Call α)) : (c.after calls).Reckoned := by
  induction calls generalizing c with
  | nil => exact h
  | cons call calls ih => exact ih (h.answer call)

theorem find? (h : c.Reckoned) {slot : Slot α} (hslot : slot ∈ c.slots) :
    c.find? slot.key = some slot :=
  find?_of_mem h.keys hslot

/-- What was just used and is held stands at the recent end. -/
theorem latest (h : c.Reckoned) {call : Call α} {key : String} {slot : Slot α}
    (fresh : key ∈ c.uses call) (held : (c.answer call).2.find? key = some slot) :
    ∃ older, (c.answer call).2.slots = older ++ [slot] := by
  -- Of the two ends that a call can leave, only one holds the key.
  have hend : ∀ older last, (c.answer call).2.slots = older ++ [last] → last.key = key →
      ∃ older, (c.answer call).2.slots = older ++ [slot] := by
    rintro older last hslots rfl
    have hmem : last ∈ (c.answer call).2.slots := by simp [hslots]
    have hfound := (h.answer call).find? hmem
    obtain rfl : last = slot := Option.some.inj (hfound.symm.trans held)
    exact ⟨older, hslots⟩
  cases call with
  | get k =>
    cases hfound : c.find? k with
    | none => simp [uses, hfound] at fresh
    | some last =>
      have hkey : last.key = k := by simpa using List.find?_some hfound
      obtain rfl : key = k := by simpa [uses, hfound] using fresh
      exact hend (c.others key) last
        (by simp only [MemoryCache.answer, MemoryCache.get, hfound]) hkey
  | set k value cost =>
    obtain rfl : key = k := by simpa [uses] using fresh
    by_cases hcostly : c.limits.maxSingle < cost
    · simp only [MemoryCache.answer, set_refused key value hcostly, MemoryCache.find?, erase_slots,
        List.find?_filter] at held
      have hmine := List.find?_some held
      simp at hmine
    · have hsuffix := h.set_suffix key value hcostly
      rcases List.suffix_concat_iff.mp hsuffix with hnone | ⟨older, hslots, -⟩
      · simp only [MemoryCache.answer, MemoryCache.find?, hnone, List.find?_nil] at held
        cases held
      · exact hend older ⟨key, value, cost⟩ hslots rfl
  | remove k => simp [uses] at fresh
  | clear => simp [uses] at fresh

end Reckoned

/-- Behind a slot stand only such as are used, and they cost no more than their bounds. -/
def Sheltered (slot : Slot α) (used : Finset String) (bound : String → Nat)
    (slots : List (Slot α)) : Prop :=
  ∃ older newer, slots = older ++ slot :: newer ∧
    ∀ s ∈ newer, s.key ∈ used ∧ s.cost.toNat ≤ bound s.key

namespace Sheltered

variable {slot : Slot α} {used : Finset String} {bound : String → Nat} {slots : List (Slot α)}

theorem last (older : List (Slot α)) : Sheltered slot used bound (older ++ [slot]) :=
  ⟨older, [], rfl, nofun⟩

theorem mem (h : Sheltered slot used bound slots) : slot ∈ slots := by
  obtain ⟨older, newer, rfl, -⟩ := h
  simp

/-- To take other slots out leaves it where it is. -/
theorem others (h : Sheltered slot used bound slots) {key : String} (hne : slot.key ≠ key) :
    Sheltered slot used bound (slots.filter (·.key != key)) := by
  obtain ⟨older, newer, rfl, hnewer⟩ := h
  refine ⟨older.filter (·.key != key), newer.filter (·.key != key), ?_, ?_⟩
  · simp [hne]
  · intro s hs
    exact hnewer s (List.mem_filter.mp hs).1

/-- What is put behind it has to be used. -/
theorem place (h : Sheltered slot used bound slots) {next : Slot α} (hused : next.key ∈ used)
    (hcost : next.cost.toNat ≤ bound next.key) : Sheltered slot used bound (slots ++ [next]) := by
  obtain ⟨older, newer, rfl, hnewer⟩ := h
  refine ⟨older, newer ++ [next], by simp, ?_⟩
  intro s hs
  rcases List.mem_append.mp hs with hs | hs
  · exact hnewer s hs
  · rw [List.mem_singleton.mp hs]
    exact ⟨hused, hcost⟩

/-- As long as the bounds leave room for it, it is not dropped. -/
theorem evict (h : Sheltered slot used bound slots) (unique : (slots.map (·.key)).Nodup)
    {limit : UInt64} (room : slot.cost.toNat + ∑ x ∈ used, bound x ≤ limit.toNat) :
    Sheltered slot used bound
      (evict limit slots (UInt64.ofNat (totalCost slots))).1 := by
  obtain ⟨older, newer, rfl, hnewer⟩ := h
  have hbehind : newer.Sublist (older ++ slot :: newer) :=
    (List.sublist_cons_self slot newer).trans (List.sublist_append_right older _)
  have hkeys : (newer.map (·.key)).Nodup := unique.sublist (hbehind.map _)
  have hcost := totalCost_le_sum hkeys hnewer
  have hfits : totalCost (slot :: newer) ≤ limit.toNat := by
    rw [totalCost_cons]
    omega
  obtain ⟨left, hleft⟩ := evict_keeps limit older (slot :: newer) hfits
  exact ⟨left, newer, hleft, hnewer⟩

/-- A slot that is read comes to stand behind all others. -/
theorem get (h : Sheltered slot used bound c.slots) (books : c.Reckoned) (key : String)
    (hused : ∀ x ∈ c.uses (.get key), x ≠ slot.key → x ∈ used)
    (hheld : ∀ x, (c.get key).2.costOf x ≤ bound x) :
    Sheltered slot used bound (c.get key).2.slots := by
  cases hfound : c.find? key with
  | none =>
    simp only [MemoryCache.get, hfound]
    exact h
  | some read =>
    have hkey : read.key = key := by simpa using List.find?_some hfound
    have hslots : (c.get key).2.slots = c.others key ++ [read] := by
      simp only [MemoryCache.get, hfound]
    rw [hslots]
    by_cases hown : read.key = slot.key
    · obtain rfl : read = slot := by
        rw [← hkey, hown, books.find? h.mem] at hfound
        exact (Option.some.inj hfound).symm
      exact last _
    · have hmem : read ∈ (c.get key).2.slots := by simp [hslots]
      have hcost : (c.get key).2.costOf read.key = read.cost.toNat := by
        simp [costOf, (books.get key).find? hmem]
      refine (h.others fun he => hown (hkey.trans he.symm)).place ?_ ?_
      · exact hused read.key (by simp [uses, hfound, hkey]) hown
      · rw [← hcost]
        exact hheld read.key

/-- A value of another key makes room for itself in front, if anywhere. -/
theorem set (h : Sheltered slot used bound c.slots) (books : c.Reckoned) {key : String} (value : α)
    {cost : UInt64} (spared : key ≠ slot.key) (hused : key ∈ used) (hput : cost.toNat ≤ bound key)
    (room : slot.cost.toNat + ∑ x ∈ used, bound x ≤ c.limits.maxCost.toNat) :
    Sheltered slot used bound (c.set key value cost).slots := by
  have hothers := h.others spared.symm
  by_cases hcostly : c.limits.maxSingle < cost
  · rw [Reckoned.set_refused key value hcostly, erase_slots]
    exact hothers
  · rw [books.set_admitted key value hcostly]
    have hplaced : Sheltered slot used bound
        (c.slots.filter (·.key != key) ++ [⟨key, value, cost⟩]) := hothers.place hused hput
    exact hplaced.evict (placed_keys books.keys ⟨key, value, cost⟩) room

/-- No call that spares the key ends the shelter. -/
theorem answer (h : Sheltered slot used bound c.slots) (books : c.Reckoned) {call : Call α}
    (spared : call.Spares slot.key) (hused : ∀ x ∈ c.uses call, x ≠ slot.key → x ∈ used)
    (hput : ∀ x, call.costOf x ≤ bound x) (hheld : ∀ x, (c.answer call).2.costOf x ≤ bound x)
    (room : slot.cost.toNat + ∑ x ∈ used, bound x ≤ c.limits.maxCost.toNat) :
    Sheltered slot used bound (c.answer call).2.slots := by
  cases call with
  | get key => exact h.get books key hused hheld
  | set key value cost =>
    have hcost : cost.toNat ≤ bound key := by simpa [Call.costOf] using hput key
    exact h.set books value spared (hused key (by simp [uses]) spared) hcost room
  | remove key =>
    simp only [MemoryCache.answer, remove, erase_slots]
    exact h.others fun he => spared he.symm
  | clear => exact spared.elim

theorem after {calls : List (Call α)} (h : Sheltered slot used bound c.slots) (books : c.Reckoned)
    (spared : ∀ call ∈ calls, call.Spares slot.key)
    (hused : ∀ x ∈ c.used calls, x ≠ slot.key → x ∈ used)
    (hpeak : ∀ x, c.peak x calls ≤ bound x)
    (room : slot.cost.toNat + ∑ x ∈ used, bound x ≤ c.limits.maxCost.toNat) :
    Sheltered slot used bound (c.after calls).slots := by
  induction calls generalizing c with
  | nil => exact h
  | cons call calls ih =>
    obtain ⟨hcall, hcalls⟩ := List.forall_mem_cons.mp spared
    have hnow : ∀ x, call.costOf x ≤ bound x ∧ (c.answer call).2.costOf x ≤ bound x ∧
        (c.answer call).2.peak x calls ≤ bound x := by
      intro x
      have hmax := hpeak x
      simp only [peak, Nat.max_le] at hmax
      exact hmax
    have hstep : Sheltered slot used bound (c.answer call).2.slots := by
      refine h.answer books hcall ?_ (fun x => (hnow x).1) (fun x => (hnow x).2.1) room
      intro x hx
      exact hused x (Finset.mem_union_left _ hx)
    refine ih hstep (books.answer call) hcalls ?_ (fun x => (hnow x).2.2) ?_
    · intro x hx
      exact hused x (Finset.mem_union_right _ hx)
    · rw [answer_limits]
      exact room

end Sheltered

/-- A value that is held when a call has just used its key is still there after any calls that spare
it, whatever the tier held before, as long as there is room for it beside the other keys that these
calls use, each at the most that it costs in their course. -/
theorem used_value_kept {limits : MemoryLimits} {before later : List (Call α)} {use : Call α}
    {c next : MemoryCache α} {key : String} {slot : Slot α}
    (reached : (empty limits).after before = c) (step : (c.answer use).2 = next)
    (fresh : key ∈ c.uses use) (held : next.find? key = some slot)
    (spared : ∀ call ∈ later, call.Spares key)
    (room : slot.cost.toNat + ∑ x ∈ (next.used later).erase key, next.peak x later ≤
      limits.maxCost.toNat) :
    ((next.after later).get key).1 = some slot.value := by
  subst reached
  have hbooks := (reckoned_empty limits).after before
  have hnext : next.Reckoned := step ▸ hbooks.answer use
  have hlimits : next.limits = limits := by
    rw [← step, answer_limits, after_limits]
    rfl
  obtain rfl : slot.key = key := by simpa using List.find?_some held
  obtain ⟨older, hslots⟩ := hbooks.latest fresh (step ▸ held)
  have hstart : Sheltered slot ((next.used later).erase slot.key) (next.peak · later)
      next.slots := by
    rw [← step, hslots]
    exact Sheltered.last older
  have hend := hstart.after hnext spared (fun x hx hne => Finset.mem_erase.mpr ⟨hne, hx⟩)
    (fun x => Nat.le_refl _) (hlimits ▸ room)
  rw [MemoryCache.get, (hnext.after later).find? hend.mem]

/-- One more than there is room for, and the value that was used before is gone. -/
example : ((((empty ⟨10, 10⟩).answer (.set "a" 1 3)).2.after [.set "b" 2 8]).get "a").1 = none := by
  decide +kernel

def threeCalls : List (Call Nat) := [.set "old" 9 4, .set "a" 1 3, .set "b" 7 2]

def afterRead : MemoryCache Nat := (((empty ⟨10, 10⟩).after threeCalls).answer (.get "a")).2

/-- "b" costs five at most and "c" two; "old" is gone when it is read. -/
def sevenCalls : List (Call Nat) :=
  [.set "b" 2 5, .get "old", .set "b" 3 1, .set "c" 4 2, .remove "b", .set "b" 5 4, .get "c"]

/-- The room for ten is just enough for "a", which costs three. -/
theorem read_value_kept :
    "a" ∈ ((empty ⟨10, 10⟩).after threeCalls).uses (.get "a") ∧
      afterRead.find? "a" = some ⟨"a", 1, 3⟩ ∧ (∀ call ∈ sevenCalls, call.Spares "a") ∧
      3 + ∑ x ∈ (afterRead.used sevenCalls).erase "a", afterRead.peak x sevenCalls = 10 ∧
      ((afterRead.after sevenCalls).get "a").1 = some 1 := by
  have fresh : "a" ∈ ((empty ⟨10, 10⟩).after threeCalls).uses (.get "a") := by decide +kernel
  have held : afterRead.find? "a" = some ⟨"a", 1, 3⟩ := rfl
  have spared : ∀ call ∈ sevenCalls, call.Spares "a" := by decide +kernel
  have room : 3 + ∑ x ∈ (afterRead.used sevenCalls).erase "a", afterRead.peak x sevenCalls =
      10 := by decide +kernel
  exact ⟨fresh, held, spared, room, used_value_kept rfl rfl fresh held spared (Nat.le_of_eq room)⟩

end MemoryCache

end ImageCache
