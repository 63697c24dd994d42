import ImageCache.Picture.Codec
import ImageCache.Proofs.Picture.Rounds
import ImageCache.Proofs.Reading.Script

namespace ImageCache.BoundsPass

variable {E σ : Type} {heads : HeadReader E} {r : Reader σ} {s t : σ} {chunk k : Nat}
  {head : ByteArray} {rounds : List (List Intake)} {calls : List Intake} {result : Except E Size}

/-- The course of a pass that has this head and asks for so many bytes next, told by the calls of
each of its rounds. There is no bound on the number of rounds. -/
inductive Course (heads : HeadReader E) (r : Reader σ) :
    Nat → ByteArray → σ → List (List Intake) → Except E Size → σ → Prop
  | unread {chunk : Nat} {head : ByteArray} {s t : σ} {calls : List Intake} {e : Fault}
      (taken : r.Round chunk s calls (some e) t) :
      Course heads r chunk head s [calls] (.error (heads.unread e)) t
  | comes {chunk : Nat} {head : ByteArray} {s t : σ} {calls : List Intake} {result : Except E Size}
      (taken : r.Round chunk s calls none t)
      (judgement : judged heads (head ++ Intake.delivered calls)
        (decide ((Intake.delivered calls).size = 0)) = some result) :
      Course heads r chunk head s [calls] result t
  | onward {chunk : Nat} {head : ByteArray} {s t u : σ} {calls : List Intake}
      {rounds : List (List Intake)} {result : Except E Size}
      (taken : r.Round chunk s calls none t)
      (undecided : judged heads (head ++ Intake.delivered calls)
        (decide ((Intake.delivered calls).size = 0)) = none)
      (rest : Course heads r (nextChunk chunk) (head ++ Intake.delivered calls) t rounds result u) :
      Course heads r chunk head s (calls :: rounds) result u

/-- A round behind which the pass goes on took something. -/
theorem took_of_undecided
    (h : judged heads (head ++ Intake.delivered calls)
      (decide ((Intake.delivered calls).size = 0)) = none) :
    0 < (Intake.delivered calls).size := by
  refine Nat.pos_of_ne_zero fun hzero => ?_
  rw [decide_eq_true hzero] at h
  have some := judged_exhausted heads (head ++ Intake.delivered calls)
  rw [h] at some
  cases some

/-- Behind such a round the reader has less than before. -/
theorem within_of_undecided (taken : r.Round chunk s calls none t)
    (undecided : judged heads (head ++ Intake.delivered calls)
      (decide ((Intake.delivered calls).size = 0)) = none)
    (within : r.Within k s) : ∃ k' < k, r.Within k' t := by
  obtain ⟨hle, hwithin⟩ := within.after taken.leads
  have htook := took_of_undecided undecided
  have hprogress := Intake.delivered_le_progress calls
  exact ⟨k - Intake.progress calls, by omega, hwithin⟩

theorem nextChunk_le (chunk : Nat) : nextChunk chunk ≤ largestChunk := Nat.min_le_right _ _

namespace Course

theorem rounds_ne_nil (h : Course heads r chunk head s rounds result t) : rounds ≠ [] := by
  cases h <;> nofun

theorem took (h : Course heads r chunk head s rounds result t) :
    ∀ calls ∈ rounds.dropLast, 0 < (Intake.delivered calls).size := by
  induction h with
  | unread => nofun
  | comes => nofun
  | onward _ undecided rest ih =>
    rw [List.dropLast_cons_of_ne_nil rest.rounds_ne_nil]
    exact List.forall_mem_cons.mpr ⟨took_of_undecided undecided, ih⟩

/-- Every round asks for some number of bytes that is no larger than the largest one. -/
theorem round (h : Course heads r chunk head s rounds result t) (hchunk : chunk ≤ largestChunk) :
    ∀ calls ∈ rounds, ∃ left ≤ largestChunk, ∃ u fault v, r.Round left u calls fault v := by
  induction h with
  | unread taken => exact List.forall_mem_singleton.mpr ⟨_, hchunk, _, _, _, taken⟩
  | comes taken => exact List.forall_mem_singleton.mpr ⟨_, hchunk, _, _, _, taken⟩
  | onward taken _ _ ih =>
    exact List.forall_mem_cons.mpr ⟨⟨_, hchunk, _, _, _, taken⟩, ih (nextChunk_le _)⟩

theorem leads (h : Course heads r chunk head s rounds result t) : r.Leads s rounds.flatten t := by
  induction h with
  | unread taken => exact List.flatten_singleton ▸ taken.leads
  | comes taken => exact List.flatten_singleton ▸ taken.leads
  | onward taken _ _ ih => exact List.flatten_cons ▸ taken.leads.append ih

/-- What a pass comes to is read off the bytes it took, unless it met with a fault. -/
theorem tells (h : Course heads r chunk head s rounds result t) :
    heads.size (head ++ Intake.delivered rounds.flatten) = result ∨
      heads.recognises (head ++ Intake.delivered rounds.flatten) = false ∧
        result = .error heads.unrecognised ∨
      ∃ call ∈ rounds.flatten, ∃ e, call.reply = .error e ∧ ¬ e.isInterruption = true ∧
        result = .error (heads.unread e) := by
  induction h with
  | unread taken =>
    obtain ⟨call, hc, hreply, he⟩ := taken.failed rfl
    rw [List.flatten_singleton]
    exact .inr (.inr ⟨call, hc, _, hreply, he, rfl⟩)
  | comes _ judgement =>
    rw [List.flatten_singleton]
    rcases judged_some judgement with foreign | ⟨hsize, -⟩
    · exact .inr (.inl foreign)
    · exact .inl hsize
  | onward _ _ _ ih =>
    rw [List.flatten_cons, Intake.delivered_append, ← ByteArray.append_assoc]
    rcases ih with hsize | foreign | ⟨call, hc, hcall⟩
    · exact .inl hsize
    · exact .inr (.inl foreign)
    · exact .inr (.inr ⟨call, List.mem_append_right _ hc, hcall⟩)

/-- Every round but the last one uses up some of what the reader has. -/
theorem length_le (h : Course heads r chunk head s rounds result t) (within : r.Within k s) :
    rounds.length ≤ k + 1 := by
  induction h generalizing k with
  | unread => exact Nat.le_add_left 1 k
  | comes => exact Nat.le_add_left 1 k
  | onward taken undecided _ ih =>
    obtain ⟨k', hk, hwithin⟩ := within_of_undecided taken undecided within
    exact Nat.succ_le_succ (Nat.le_trans (ih hwithin) hk)

end Course

/-- The bound on the rounds is not what ends the pass. -/
theorem rounds_course (heads : HeadReader E) (finite : r.Finite s) (within : r.Within k s)
    {fuel : Nat} (hf : k < fuel) (chunk : Nat) (head : Buffer) (record : List Intake) :
    ∃ rounds result t, Course heads r chunk head.bytes s rounds result t ∧
      r.recorded.run (BoundsPass.rounds heads fuel chunk head) (s, record) =
        (result, (t, record ++ rounds.flatten)) := by
  -- The chunks grow to a bound and stay there, so only what the reader has left can be the measure.
  induction fuel generalizing s k chunk head record with
  | zero => exact absurd hf (Nat.not_lt_zero _)
  | succ fuel ih =>
    obtain ⟨calls, t, ⟨e, taken, hrun⟩ | ⟨more, taken, hrun, hmore⟩⟩ :=
      finite.drain head chunk record
    · refine ⟨[calls], _, t, .unread taken, ?_⟩
      rw [List.flatten_singleton]
      exact run_rounds_error heads fuel hrun
    · have exhausted : (more.bytes.size == head.bytes.size) =
          decide ((Intake.delivered calls).size = 0) := by
        rw [hmore, ByteArray.size_append, Bool.eq_iff_iff, beq_iff_eq, decide_eq_true_iff]
        omega
      have hround := run_rounds heads fuel hrun
      rw [exhausted, hmore] at hround
      cases hj : judged heads (head.bytes ++ Intake.delivered calls)
          (decide ((Intake.delivered calls).size = 0)) with
      | some result =>
        rw [hj] at hround
        refine ⟨[calls], result, t, .comes taken hj, ?_⟩
        rw [List.flatten_singleton]
        exact hround
      | none =>
        rw [hj] at hround
        obtain ⟨k', hk, hwithin⟩ := within_of_undecided taken hj within
        obtain ⟨rounds, result, u, course, hrest⟩ := ih (finite.after taken.leads) hwithin
          (by omega) (nextChunk chunk) more (record ++ calls)
        rw [hmore] at course
        refine ⟨calls :: rounds, result, u, .onward taken hj course, ?_⟩
        rw [List.flatten_cons, ← List.append_assoc]
        exact hround.trans hrest

/-- The search for a size ends in every reader that does, whatever heads may tell. Each of its
rounds but the last takes a byte, none asks for more than 65536 bytes in all, and it comes to the
size that the bytes taken so far show or to a fault, which is one of these bytes or of a call. -/
theorem run_ends (heads : HeadReader E) (finite : r.Finite s) :
    ∃ rounds result t,
      r.recorded.run (run heads) (s, []) = (result, (t, rounds.flatten)) ∧
      Course heads r firstChunk .empty s rounds result t ∧
      rounds.length ≤ r.horizon s + 1 ∧
      (∀ calls ∈ rounds.dropLast, 0 < (Intake.delivered calls).size) ∧
      (∀ calls ∈ rounds, (Intake.delivered calls).size ≤ 65536 ∧
        ∀ before call after, calls = before ++ call :: after →
          (Intake.delivered before).size + call.wanted ≤ 65536) ∧
      ((∃ size, result = .ok size ∧ heads.size (Intake.delivered rounds.flatten) = .ok size) ∨
        ∃ e, result = .error e ∧
          (heads.size (Intake.delivered rounds.flatten) = .error e ∨
            heads.recognises (Intake.delivered rounds.flatten) = false ∧ e = heads.unrecognised ∨
            ∃ call ∈ rounds.flatten, ∃ fault, call.reply = .error fault ∧
              ¬ fault.isInterruption = true ∧ e = heads.unread fault)) := by
  obtain ⟨rounds, result, t, course, hrun⟩ :=
    rounds_course heads finite finite.within (Nat.lt_succ_self _) firstChunk Buffer.empty []
  have tells := course.tells
  rw [show Buffer.empty.bytes = .empty from rfl, ByteArray.empty_append] at tells
  refine ⟨rounds, result, t, ?_, course, course.length_le finite.within, course.took,
    fun calls hc => ?_, ?_⟩
  · rw [run, Reader.run_bind, Reader.run_horizon]
    exact hrun
  · obtain ⟨left, hleft, _, _, _, taken⟩ := course.round (by decide) calls hc
    have short := fun call hcall =>
      finite.short course.leads call (List.mem_flatten_of_mem hc hcall)
    refine ⟨Nat.le_trans (taken.delivered_le short) hleft, fun before call after he => ?_⟩
    exact Nat.le_trans (taken.within he).2 hleft
  · cases result with
    | ok size =>
      rcases tells with hsize | ⟨-, hresult⟩ | ⟨_, _, _, _, _, hresult⟩
      · exact .inl ⟨size, rfl, hsize⟩
      · cases hresult
      · cases hresult
    | error e =>
      refine .inr ⟨e, rfl, ?_⟩
      rcases tells with hsize | ⟨hforeign, hresult⟩ | ⟨call, hc, fault, hreply, hf, hresult⟩
      · exact .inl hsize
      · exact .inr (.inl ⟨hforeign, Except.error.inj hresult⟩)
      · exact .inr (.inr ⟨call, hc, fault, hreply, hf, Except.error.inj hresult⟩)

/-- A stream of the first bytes of a PNG that once hands out none of them, is interrupted, and
breaks off five bytes later. -/
def tattered : Rehearsal.Stream :=
  { Rehearsal.Stream.ofBytes ⟨#[137, 80, 78, 71, 13, 10, 26, 10, 0, 0, 0, 13]⟩ with
    cues := [.atMost 3, .atMost 0, .fails (.reported .interrupted "again"), .atMost 5,
      .fails (.reported .brokenPipe "gone")] }

/-- It takes a second round to meet with the fault. -/
theorem tattered_given_up : Rehearsal.Stream.reader.Finite tattered ∧
    ∃ (rounds : List (List Intake)) (t : Rehearsal.Stream),
    Rehearsal.Stream.reader.recorded.run Picture.bounds (tattered, []) =
      (.error (.unread (.reported .brokenPipe "gone")), (t, rounds.flatten)) ∧
    rounds.length ≤ 14 ∧
    ∀ calls ∈ rounds.dropLast, 0 < (Intake.delivered calls).size := by
  have finite : Rehearsal.Stream.reader.Finite tattered :=
    Rehearsal.Stream.Ends.finite ⟨nofun, nofun⟩
  have broken : (Rehearsal.Stream.reader.recorded.run Picture.bounds (tattered, [])).1 =
      .error (.unread (.reported .brokenPipe "gone")) := by decide +kernel
  obtain ⟨rounds, result, t, hrun, -, hlength, htook, -⟩ := run_ends Picture.headReader finite
  obtain rfl : result = .error (.unread (.reported .brokenPipe "gone")) :=
    (congrArg Prod.fst hrun).symm.trans broken
  exact ⟨finite, rounds, t, hrun, hlength, htook⟩

end ImageCache.BoundsPass
