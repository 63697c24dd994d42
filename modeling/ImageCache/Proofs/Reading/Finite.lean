import ImageCache.Proofs.Reading.Window

namespace ImageCache

variable {σ : Type}

namespace Intake

/-- How much nearer a call brings a reader to its end. -/
def brought (call : Intake) : Nat :=
  match call.reply with
  | .ok bytes => bytes.size
  | .error e => e.isInterruption.toNat

def fault? (call : Intake) : Option Fault :=
  match call.reply with
  | .ok _ => none
  | .error e => some e

def progress : List Intake → Nat
  | [] => 0
  | call :: calls => call.brought + progress calls

variable {call : Intake}

theorem brought_error_eq_zero {n : Nat} {e : Fault} :
    brought ⟨n, .error e⟩ = 0 ↔ ¬ e.isInterruption = true := by
  simp [brought]

theorem bytes_le_brought (call : Intake) : call.bytes.size ≤ call.brought := by
  obtain ⟨n, reply⟩ := call
  cases reply with
  | ok bytes => exact Nat.le_refl _
  | error e => exact Nat.zero_le _

theorem bytes_of_brought (h : call.brought = 0) : call.bytes = .empty :=
  ByteArray.size_eq_zero_iff.mp (Nat.le_zero.mp (h ▸ call.bytes_le_brought))

theorem delivered_nil : delivered [] = .empty := rfl

theorem delivered_from (front : ByteArray) (calls : List Intake) :
    calls.foldl (fun came i => came ++ i.bytes) front = front ++ delivered calls := by
  induction calls generalizing front with
  | nil => exact ByteArray.append_empty.symm
  | cons call calls ih =>
    rw [delivered, List.foldl_cons, List.foldl_cons, ih, ih, ByteArray.append_assoc,
      ByteArray.append_assoc, ByteArray.empty_append]

theorem delivered_cons (call : Intake) (calls : List Intake) :
    delivered (call :: calls) = call.bytes ++ delivered calls := by
  rw [delivered, List.foldl_cons, delivered_from, ByteArray.empty_append]

theorem delivered_append (first second : List Intake) :
    delivered (first ++ second) = delivered first ++ delivered second := by
  rw [delivered, List.foldl_append, delivered_from]
  rfl

theorem progress_append (first second : List Intake) :
    progress (first ++ second) = progress first + progress second := by
  induction first with
  | nil => exact (Nat.zero_add _).symm
  | cons call first ih => rw [List.cons_append, progress, progress, ih, Nat.add_assoc]

theorem delivered_le_progress (calls : List Intake) : (delivered calls).size ≤ progress calls := by
  induction calls with
  | nil => exact Nat.le_refl 0
  | cons call calls ih =>
    rw [delivered_cons, ByteArray.size_append, progress]
    exact Nat.add_le_add call.bytes_le_brought ih

end Intake

namespace Drain

variable {d : Drain} {left : Nat}

theorem left_ne_zero (hl : d.left = some left) (hleft : 0 < left) : d.left ≠ some 0 := by
  rw [hl]
  exact fun he => Nat.ne_of_gt hleft (Option.some.inj he)

/-- As long as bytes may still be taken, some are asked for, and no more than may be taken. -/
theorem request_bounds (hd : 0 < d.largest) (hl : d.left = some left) (hleft : 0 < left) :
    0 < d.prepared.request ∧ d.prepared.request ≤ left := by
  rw [request, d.prepared_left, hl]
  exact ⟨Nat.lt_min.mpr ⟨d.prepared_room hd, hleft⟩, Nat.min_le_right _ _⟩

end Drain

namespace Reader

variable {r : Reader σ} {s t u : σ} {k left : Nat} {call : Intake} {calls : List Intake}
  {fault : Option Fault}

/-- These calls, made one after the other, lead from one state to another. -/
def Leads (r : Reader σ) (s : σ) : List Intake → σ → Prop
  | [], t => s = t
  | call :: calls, t => ∃ u, r.read call.wanted s = (call.reply, u) ∧ r.Leads u calls t

theorem Leads.append {more : List Intake} (h : r.Leads s calls t) (h' : r.Leads t more u) :
    r.Leads s (calls ++ more) u := by
  induction calls generalizing s with
  | nil => exact (show s = t from h) ▸ h'
  | cons call calls ih =>
    obtain ⟨v, read, rest⟩ := h
    exact ⟨v, read, ih rest⟩

/-- Whatever is asked, no more than so much still comes. -/
def Within (r : Reader σ) (k : Nat) (s : σ) : Prop :=
  ∀ calls t, r.Leads s calls t → Intake.progress calls ≤ k

/-- What came does not come again. -/
theorem Within.after (h : r.Within k s) (leads : r.Leads s calls t) :
    Intake.progress calls ≤ k ∧ r.Within (k - Intake.progress calls) t := by
  refine ⟨h calls t leads, fun more u later => ?_⟩
  have hle := h (calls ++ more) u (leads.append later)
  rw [Intake.progress_append] at hle
  omega

theorem Within.read (h : r.Within k s) (read : r.read call.wanted s = (call.reply, t)) :
    call.brought ≤ k ∧ r.Within (k - call.brought) t :=
  h.after (show r.Leads s [call] t from ⟨t, read, rfl⟩)

/-- Where something is left in each state that pays for every call, it pays for all of them. -/
theorem Leads.pays {has : σ → Nat → Prop}
    (step : ∀ {s k}, has s k → ∀ {call : Intake} {t}, r.read call.wanted s = (call.reply, t) →
      call.bytes.size ≤ call.wanted ∧ ∃ k', has t k' ∧ call.brought + k' ≤ k)
    (leads : r.Leads s calls t) (hs : has s k) :
    (∀ call ∈ calls, call.bytes.size ≤ call.wanted) ∧
      ∃ k', has t k' ∧ Intake.progress calls + k' ≤ k := by
  induction calls generalizing s k with
  | nil =>
    obtain rfl : s = t := leads
    exact ⟨by simp, k, hs, Nat.le_of_eq (Nat.zero_add k)⟩
  | cons call calls ih =>
    obtain ⟨u, read, rest⟩ := leads
    obtain ⟨hshort, k', hu, hle⟩ := step hs read
    obtain ⟨hshorts, k'', ht, hle'⟩ := ih rest hu
    refine ⟨List.forall_mem_cons.mpr ⟨hshort, hshorts⟩, k'', ht, ?_⟩
    rw [Intake.progress]
    omega

/-- A reader that comes to an end, and that knows in each of its states how far it is at most. No
reply holds more than was asked for. -/
structure Finite (r : Reader σ) (s : σ) : Prop where
  short : ∀ {calls t}, r.Leads s calls t → ∀ call ∈ calls, call.bytes.size ≤ call.wanted
  bound : ∀ {calls t}, r.Leads s calls t → r.Within (r.horizon t) t

namespace Finite

theorem after (h : r.Finite s) (leads : r.Leads s calls t) : r.Finite t where
  short later call hc := h.short (leads.append later) call (List.mem_append_right _ hc)
  bound later := h.bound (leads.append later)

theorem within (h : r.Finite s) : r.Within (r.horizon s) s :=
  h.bound (show r.Leads s [] s from rfl)

theorem of_potential (has : σ → Nat → Prop)
    (step : ∀ {s k}, has s k → ∀ {call : Intake} {t}, r.read call.wanted s = (call.reply, t) →
      call.bytes.size ≤ call.wanted ∧ ∃ k', has t k' ∧ call.brought + k' ≤ k)
    (bound : ∀ {s k}, has s k → k ≤ r.horizon s) (hs : has s k) : r.Finite s where
  short leads := (leads.pays step hs).1
  bound := by
    intro calls t leads more u later
    obtain ⟨-, k', ht, -⟩ := leads.pays step hs
    obtain ⟨-, k'', -, hle⟩ := later.pays step ht
    exact Nat.le_trans (Nat.le_trans (Nat.le_add_right _ _) hle) (bound ht)

end Finite

theorem leads_told {horizon : σ → Nat} :
    ({ r with horizon := horizon } : Reader σ).Leads s calls t ↔ r.Leads s calls t := by
  induction calls generalizing s with
  | nil => exact Iff.rfl
  | cons call calls ih => simp only [Leads, ih]

/-- A reader from which only so much comes can be told how far it is in each state. -/
theorem exists_finite (short : ∀ {calls t}, r.Leads s calls t → ∀ call ∈ calls,
    call.bytes.size ≤ call.wanted) (within : r.Within k s) :
    ∃ horizon, ({ r with horizon := horizon } : Reader σ).Finite s := by
  have ends : ∀ t, ∃ m, (∃ m, r.Within m t) → r.Within m t := by
    intro t
    by_cases h : ∃ m, r.Within m t
    · obtain ⟨m, hm⟩ := h
      exact ⟨m, fun _ => hm⟩
    · exact ⟨0, fun hm => absurd hm h⟩
  obtain ⟨horizon, bounds⟩ := Classical.skolem.mp ends
  refine ⟨horizon, fun leads => short (leads_told.mp leads), fun leads more u later => ?_⟩
  have left := (within.after (leads_told.mp leads)).2
  exact bounds _ ⟨_, left⟩ more u (leads_told.mp later)

/-- Readers that hand out the bytes ahead of them are finite, for all interruptions. -/
theorem Trickles.finite {has : σ → ByteArray → Nat → Prop} (h : r.Trickles has)
    {ahead : ByteArray} (hs : has s ahead k) : r.Finite s := by
  refine Finite.of_potential (fun s m => ∃ ahead k, has s ahead k ∧ ahead.size + k = m) ?_ ?_
    ⟨ahead, k, hs, rfl⟩
  · intro s m h' call t hread
    obtain ⟨ahead, k, hs, rfl⟩ := h'
    obtain ⟨n, reply⟩ := call
    rcases h.read hs n with ⟨piece, rest, s', k', hr, hp, hk, hs'⟩ | ⟨e, s', k', hr, he, hk, hs'⟩
    · obtain ⟨rfl, rfl⟩ := Prod.mk.inj (hread.symm.trans hr)
      have hsize := hp.size
      refine ⟨hp.short, _, ⟨rest, k', hs', rfl⟩, ?_⟩
      simp only [Intake.brought]
      omega
    · obtain ⟨rfl, rfl⟩ := Prod.mk.inj (hread.symm.trans hr)
      refine ⟨Nat.zero_le n, _, ⟨ahead, k', hs', rfl⟩, ?_⟩
      simp only [Intake.brought, he, Bool.toNat_true]
      omega
  · intro s m h'
    obtain ⟨ahead, k, hs, rfl⟩ := h'
    exact h.bound hs

/-- Calls for so many bytes in all: made until these came, or one came away with nothing, or one
failed and was not just interrupted. No number of calls is too large. -/
inductive Round (r : Reader σ) : Nat → σ → List Intake → Option Fault → σ → Prop
  | full {s : σ} : Round r 0 s [] none s
  | stopped {left : Nat} {s t : σ} {call : Intake} (wanted : 0 < call.wanted ∧ call.wanted ≤ left)
      (read : r.read call.wanted s = (call.reply, t)) (nothing : call.brought = 0) :
      Round r left s [call] call.fault? t
  | onward {left : Nat} {s t u : σ} {call : Intake} {calls : List Intake} {fault : Option Fault}
      (wanted : 0 < call.wanted ∧ call.wanted ≤ left)
      (read : r.read call.wanted s = (call.reply, t)) (something : 0 < call.brought)
      (rest : Round r (left - call.bytes.size) t calls fault u) :
      Round r left s (call :: calls) fault u

namespace Round

theorem leads (h : r.Round left s calls fault t) : r.Leads s calls t := by
  induction h with
  | full => rfl
  | stopped _ read _ => exact ⟨_, read, rfl⟩
  | onward _ read _ _ ih => exact ⟨_, read, ih⟩

/-- What came and what is asked for next is never more than what the round is for. -/
theorem within (h : r.Round left s calls fault t) {before after : List Intake}
    (hc : calls = before ++ call :: after) :
    0 < call.wanted ∧ (Intake.delivered before).size + call.wanted ≤ left := by
  induction h generalizing before with
  | full => simp at hc
  | stopped wanted _ _ =>
    cases before with
    | nil =>
      obtain ⟨rfl, -⟩ := List.cons.inj hc
      exact ⟨wanted.1, (Nat.zero_add _).symm ▸ wanted.2⟩
    | cons first before => simp at hc
  | onward wanted _ _ _ ih =>
    cases before with
    | nil =>
      obtain ⟨rfl, -⟩ := List.cons.inj hc
      exact ⟨wanted.1, (Nat.zero_add _).symm ▸ wanted.2⟩
    | cons first before =>
      obtain ⟨rfl, hrest⟩ := List.cons.inj hc
      obtain ⟨hpos, hle⟩ := ih hrest
      rw [Intake.delivered_cons, ByteArray.size_append]
      omega

/-- What comes is never more than what the round is for, as no call brings more than it asks for. -/
theorem delivered_le (h : r.Round left s calls fault t)
    (short : ∀ call ∈ calls, call.bytes.size ≤ call.wanted) :
    (Intake.delivered calls).size ≤ left := by
  rcases List.eq_nil_or_concat calls with rfl | ⟨before, call, rfl⟩
  · exact Nat.zero_le left
  · rw [List.concat_eq_append] at h short ⊢
    have hwanted := (h.within rfl).2
    have hshort := short call (List.mem_append_right _ List.mem_cons_self)
    rw [Intake.delivered_append, Intake.delivered_cons, Intake.delivered_nil,
      ByteArray.append_empty, ByteArray.size_append]
    omega

/-- The fault of a round is that of one of its calls. -/
theorem failed (h : r.Round left s calls fault t) {e : Fault} (he : fault = some e) :
    ∃ call ∈ calls, call.reply = .error e ∧ ¬ e.isInterruption = true := by
  induction h with
  | full => cases he
  | @stopped _ _ _ call _ _ nothing =>
    refine ⟨call, List.mem_cons_self, ?_⟩
    obtain ⟨n, reply⟩ := call
    cases reply with
    | ok bytes => cases he
    | error e' =>
      cases he
      exact ⟨rfl, Intake.brought_error_eq_zero.mp nothing⟩
  | onward _ _ _ _ ih =>
    obtain ⟨call, hc, hcall⟩ := ih he
    exact ⟨call, List.mem_cons_of_mem _ hc, hcall⟩

end Round

section Loop

variable {d : Drain}

/-- Behind a call that brings nothing no more is read. -/
theorem loop_stopped (fuel : Nat) (hl : d.left = some left) (hleft : 0 < left)
    (hw : d.prepared.request = call.wanted) (read : r.read call.wanted s = (call.reply, t))
    (nothing : call.brought = 0) :
    ∃ reply, r.run (Drain.loop (fuel + 1) d) s = (reply, t) ∧
      reply.map (·.bytes) = call.fault?.elim (.ok d.buffer.bytes) .error := by
  rw [Drain.loop, d.prepared_left, if_neg (Drain.left_ne_zero hl hleft), run_bind, run_upTo, hw,
    read]
  obtain ⟨n, reply⟩ := call
  dsimp only
  cases reply with
  | ok piece =>
    dsimp only
    rw [if_pos (show piece.size = 0 from nothing)]
    exact ⟨_, rfl, congrArg Except.ok d.prepared_bytes⟩
  | error e =>
    dsimp only
    rw [if_neg (Intake.brought_error_eq_zero.mp nothing)]
    exact ⟨_, rfl, rfl⟩

/-- Behind a call that brings something the loop goes on with it. -/
theorem loop_onward (fuel : Nat) (hd : 0 < d.largest) (hl : d.left = some left) (hleft : 0 < left)
    (hw : d.prepared.request = call.wanted) (read : r.read call.wanted s = (call.reply, t))
    (something : 0 < call.brought) :
    ∃ next : Drain, r.run (Drain.loop (fuel + 1) d) s = r.run (Drain.loop fuel next) t ∧
      0 < next.largest ∧ next.left = some (left - call.bytes.size) ∧
      next.buffer.bytes = d.buffer.bytes ++ call.bytes := by
  have hlargest : 0 < d.prepared.largest := d.prepared_largest ▸ hd
  have hprepared : d.prepared.left = some left := d.prepared_left.trans hl
  rw [Drain.loop, d.prepared_left, if_neg (Drain.left_ne_zero hl hleft), run_bind, run_upTo, hw,
    read]
  obtain ⟨n, reply⟩ := call
  dsimp only
  cases reply with
  | ok piece =>
    dsimp only
    rw [if_neg (show ¬ piece.size = 0 from Nat.ne_of_gt something)]
    refine ⟨d.prepared.accept piece, rfl, d.prepared.accept_largest piece hlargest, ?_, ?_⟩
    · rw [Drain.accept, hprepared]
      rfl
    · rw [Drain.accept, Buffer.append_bytes, d.prepared_bytes]
      rfl
  | error e =>
    have he : e.isInterruption = true := Decidable.of_not_not fun hne =>
      Nat.ne_of_gt something (Intake.brought_error_eq_zero.mpr hne)
    dsimp only
    rw [if_pos he]
    exact ⟨d.prepared, rfl, hlargest, hprepared, d.prepared_bytes.trans ByteArray.append_empty.symm⟩

theorem Within.loop (within : r.Within k s) {fuel : Nat} (hf : k < fuel) (hd : 0 < d.largest)
    (hl : d.left = some left) (record : List Intake) :
    ∃ calls fault t, r.Round left s calls fault t ∧
      ∃ reply, r.recorded.run (Drain.loop fuel d) (s, record) = (reply, (t, record ++ calls)) ∧
        reply.map (·.bytes) =
          fault.elim (.ok (d.buffer.bytes ++ Intake.delivered calls)) .error := by
  -- What a call brings is taken off what is still to come, so the fuel lasts as long as calls do.
  induction fuel generalizing d s left k record with
  | zero => exact absurd hf (Nat.not_lt_zero _)
  | succ fuel ih =>
    rcases Nat.eq_zero_or_pos left with rfl | hleft
    · refine ⟨[], none, s, .full, .ok d.prepared.buffer, ?_, ?_⟩
      · rw [Drain.loop, d.prepared_left, if_pos hl, List.append_nil]
        rfl
      · exact congrArg Except.ok (d.prepared_bytes.trans ByteArray.append_empty.symm)
    · obtain ⟨⟨reply, t⟩, hr⟩ : ∃ out, r.read d.prepared.request s = out := ⟨_, rfl⟩
      obtain ⟨call, hw, hr⟩ : ∃ call : Intake, d.prepared.request = call.wanted ∧
          r.read call.wanted s = (call.reply, t) := ⟨⟨_, reply⟩, rfl, hr⟩
      have wanted := Drain.request_bounds hd hl hleft
      rw [hw] at wanted
      have recorded := recorded_read record hr
      rcases Nat.eq_zero_or_pos call.brought with nothing | something
      · obtain ⟨reply, hrun, hreply⟩ := loop_stopped fuel hl hleft hw recorded nothing
        refine ⟨[call], call.fault?, t, .stopped wanted hr nothing, reply, hrun, ?_⟩
        rw [hreply, Intake.delivered_cons, Intake.bytes_of_brought nothing, Intake.delivered_nil,
          ByteArray.append_empty, ByteArray.append_empty]
      · obtain ⟨next, hrun, hlargest, hnext, hbytes⟩ :=
          loop_onward fuel hd hl hleft hw recorded something
        obtain ⟨hle, hwithin⟩ := within.read hr
        obtain ⟨calls, fault, u, hround, reply, hrest, hreply⟩ :=
          ih hwithin (by omega) hlargest hnext (record ++ [call])
        refine ⟨call :: calls, fault, u, .onward wanted hr something hround, reply, ?_, ?_⟩
        · rw [hrun, hrest, List.append_assoc]
          rfl
        · rw [hreply, hbytes, Intake.delivered_cons, ByteArray.append_assoc]

/-- To read until so many bytes came is to make the calls of a round: the bound on their number is
not what ends it. -/
theorem Finite.drain (h : r.Finite s) (b : Buffer) (left : Nat) (record : List Intake) :
    ∃ calls t,
      (∃ e, r.Round left s calls (some e) t ∧
        r.recorded.run (Reading.drain b (some left)) (s, record) =
          (.error e, (t, record ++ calls))) ∨
      ∃ more : Buffer, r.Round left s calls none t ∧
        r.recorded.run (Reading.drain b (some left)) (s, record) =
          (.ok more, (t, record ++ calls)) ∧
        more.bytes = b.bytes ++ Intake.delivered calls := by
  obtain ⟨calls, fault, t, round, reply, hrun, hreply⟩ :=
    h.within.loop (d := Drain.start b (some left)) (Nat.lt_succ_self _)
      (Nat.lt_of_sub_eq_succ rfl) rfl record
  refine ⟨calls, t, ?_⟩
  rw [Reading.drain, run_bind, run_horizon]
  cases fault with
  | some e =>
    cases reply with
    | ok more => cases hreply
    | error e' =>
      obtain rfl : e' = e := Except.error.inj hreply
      exact .inl ⟨e', round, hrun⟩
  | none =>
    cases reply with
    | ok more => exact .inr ⟨more, round, hrun, Except.ok.inj hreply⟩
    | error e => cases hreply

end Loop

end Reader

end ImageCache
