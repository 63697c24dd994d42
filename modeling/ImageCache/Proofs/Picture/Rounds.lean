import ImageCache.Picture.BoundsPass
import ImageCache.Proofs.Reading.Window
import Mathlib.Data.Nat.Find

namespace ImageCache.BoundsPass

variable {E σ : Type} {heads : HeadReader E} {bytes : ByteArray} {k : Nat} {result : Except E Size}

def chunk : Nat → Nat
  | 0 => firstChunk
  | k + 1 => nextChunk (chunk k)

def reach : Nat → Nat
  | 0 => 0
  | k + 1 => reach k + chunk k

example : (List.range 6).map reach = [0, 4096, 12288, 28672, 61440, 126976] := by decide

theorem firstChunk_le_chunk (k : Nat) : firstChunk ≤ chunk k := by
  induction k with
  | zero => exact Nat.le_refl firstChunk
  | succ k ih =>
    unfold chunk nextChunk largestChunk
    unfold firstChunk at ih ⊢
    omega

theorem chunk_pos (k : Nat) : 0 < chunk k :=
  Nat.lt_of_lt_of_le (Nat.lt_of_sub_eq_succ rfl) (firstChunk_le_chunk k)

theorem le_reach (k : Nat) : k ≤ reach k := by
  induction k with
  | zero => exact Nat.le_refl 0
  | succ k ih =>
    have hpos := chunk_pos k
    unfold reach
    omega

theorem reach_mono {i k : Nat} (h : i ≤ k) : reach i ≤ reach k := by
  induction h with
  | refl => exact Nat.le_refl _
  | step _ ih => exact Nat.le_trans ih (Nat.le_add_right _ _)

theorem firstChunk_le_reach (k : Nat) : firstChunk ≤ reach (k + 1) :=
  Nat.le_trans (firstChunk_le_chunk k) (Nat.le_add_left (chunk k) (reach k))

/-- One round is enough to tell formats apart. -/
theorem recognisable_le_reach (k : Nat) : recognisable ≤ reach (k + 1) :=
  Nat.le_trans (by decide) (firstChunk_le_reach k)

/-- What a round comes to that leaves this head, unless the pass goes on behind it. -/
def judged (heads : HeadReader E) (head : ByteArray) (exhausted : Bool) : Option (Except E Size) :=
  if (decide (recognisable ≤ head.size) || exhausted) && !heads.recognises head then
    some (.error heads.unrecognised)
  else
    match heads.size head with
    | .ok size => some (.ok size)
    | .error e => if exhausted then some (.error e) else none

/-- A round comes to what its head shows, if that is a size or nothing more came, or the head begins
like no image. -/
theorem judged_some {head : ByteArray} {exhausted : Bool}
    (h : judged heads head exhausted = some result) :
    heads.recognises head = false ∧ result = .error heads.unrecognised ∨
      heads.size head = result ∧ ((∃ size, result = .ok size) ∨ exhausted = true) := by
  unfold judged at h
  split at h
  · rename_i hguard
    rw [Bool.and_eq_true, Bool.not_eq_true'] at hguard
    exact .inl ⟨hguard.2, (Option.some.inj h).symm⟩
  · refine .inr ?_
    cases hsize : heads.size head with
    | ok size =>
      rw [hsize] at h
      exact ⟨Option.some.inj h, .inl ⟨size, (Option.some.inj h).symm⟩⟩
    | error e =>
      rw [hsize] at h
      dsimp only at h
      split at h
      · rename_i hend
        exact ⟨Option.some.inj h, .inr hend⟩
      · cases h

/-- The pass goes on behind a head that shows no size. -/
theorem judged_none {head : ByteArray} {exhausted : Bool}
    (h : judged heads head exhausted = none) : ∃ e, heads.size head = .error e := by
  unfold judged at h
  split at h
  · cases h
  · cases hsize : heads.size head with
    | ok size =>
      rw [hsize] at h
      cases h
    | error e => exact ⟨e, rfl⟩

/-- Where nothing more came the pass does not go on. -/
theorem judged_exhausted (heads : HeadReader E) (head : ByteArray) :
    (judged heads head true).isSome := by
  unfold judged
  split
  · rfl
  · split <;> rfl

/-- A round reads on behind the head and is judged by what there is then. -/
theorem run_rounds (heads : HeadReader E) {r : Reader σ} {s t : σ} (fuel : Nat) {chunk : Nat}
    {head more : Buffer} (hr : r.run (Reading.drain head (some chunk)) s = (.ok more, t)) :
    r.run (rounds heads (fuel + 1) chunk head) s =
      match judged heads more.bytes (more.bytes.size == head.bytes.size) with
      | some result => (result, t)
      | none => r.run (rounds heads fuel (nextChunk chunk) more) t := by
  rw [rounds, Reader.run_bind, hr]
  dsimp only
  rw [judged]
  split
  · rfl
  · cases heads.size more.bytes with
    | ok size => rfl
    | error e =>
      dsimp only
      split
      · rfl
      · rfl

theorem run_rounds_error (heads : HeadReader E) {r : Reader σ} {s t : σ} (fuel : Nat) {chunk : Nat}
    {head : Buffer} {e : Fault}
    (hr : r.run (Reading.drain head (some chunk)) s = (.error e, t)) :
    r.run (rounds heads (fuel + 1) chunk head) s = (.error (heads.unread e), t) := by
  rw [rounds, Reader.run_bind, hr]
  rfl

/-- What a round comes to, unless the pass goes on behind it. -/
def verdict (heads : HeadReader E) (bytes : ByteArray) (k : Nat) : Option (Except E Size) :=
  judged heads (bytes.extract 0 (reach (k + 1))) (decide (bytes.size ≤ reach k))

/-- A round comes to what its bytes show, if they show a size or nothing more came, or they begin
like no image. -/
theorem verdict_some (h : verdict heads bytes k = some result) :
    heads.recognises (bytes.extract 0 (reach (k + 1))) = false ∧
        result = .error heads.unrecognised ∨
      heads.size (bytes.extract 0 (reach (k + 1))) = result ∧
        ((∃ size, result = .ok size) ∨ bytes.size ≤ reach k) := by
  have shown := judged_some h
  rw [decide_eq_true_iff] at shown
  exact shown

/-- The pass comes to this in this round and goes on behind all rounds before. -/
structure First (heads : HeadReader E) (bytes : ByteArray) (k : Nat) (result : Except E Size) :
    Prop where
  comes : verdict heads bytes k = some result
  before : ∀ i < k, verdict heads bytes i = none

theorem verdict_exhausted (heads : HeadReader E) (h : bytes.size ≤ reach k) :
    (verdict heads bytes k).isSome := by
  rw [verdict, decide_eq_true h]
  exact judged_exhausted heads _

theorem exists_first (heads : HeadReader E) (bytes : ByteArray) :
    ∃ k result, First heads bytes k result := by
  have ends : ∃ k, (verdict heads bytes k).isSome :=
    ⟨bytes.size, verdict_exhausted heads (le_reach bytes.size)⟩
  obtain ⟨result, comes⟩ := Option.isSome_iff_exists.mp (Nat.find_spec ends)
  refine ⟨Nat.find ends, result, comes, fun i hi => ?_⟩
  exact Option.not_isSome_iff_eq_none.mp (Nat.find_min ends hi)

namespace First

/-- A round behind which the pass goes on took something. -/
theorem goes_on (h : First heads bytes k result) {i : Nat} (hi : i < k) : reach i < bytes.size := by
  refine Nat.not_le.mp fun hend => ?_
  have some := verdict_exhausted heads hend
  rw [h.before i hi] at some
  cases some

theorem le_of_comes (h : First heads bytes k result) {i : Nat} {other : Except E Size}
    (comes : verdict heads bytes i = some other) : k ≤ i := by
  refine Nat.not_lt.mp fun hlt => ?_
  rw [h.before i hlt] at comes
  cases comes

theorem unique (h : First heads bytes k result) {i : Nat} {other : Except E Size}
    (h' : First heads bytes i other) : i = k ∧ other = result := by
  obtain rfl : i = k := Nat.le_antisymm (h'.le_of_comes h.comes) (h.le_of_comes h'.comes)
  exact ⟨rfl, Option.some.inj (h'.comes.symm.trans h.comes)⟩

theorem le_size (h : First heads bytes k result) : k ≤ bytes.size := by
  cases k with
  | zero => exact Nat.zero_le _
  | succ k => exact Nat.lt_of_le_of_lt (le_reach k) (h.goes_on (Nat.lt_succ_self k))

end First

section Run

variable {r : Reader σ} {has : σ → ByteArray → Nat → Prop} {s : σ} {n : Nat}

/-- A round comes to its verdict in any reader, and has read just the bytes it goes by. -/
theorem round (heads : HeadReader E) (h : r.Trickles has) (fuel : Nat) {head : Buffer}
    (hb : head.bytes = bytes.extract 0 (reach k))
    (hs : has s (bytes.extract (reach k) bytes.size) n) :
    ∃ more s' n', more.bytes = bytes.extract 0 (reach (k + 1)) ∧
      has s' (bytes.extract (reach (k + 1)) bytes.size) n' ∧
      r.run (rounds heads (fuel + 1) (chunk k) head) s =
        match verdict heads bytes k with
        | some result => (result, s')
        | none => r.run (rounds heads fuel (chunk (k + 1)) more) s' := by
  obtain ⟨more, s', n', hr, hm, -, hs'⟩ := h.drain head (some (chunk k)) hs
  rw [Option.getD_some] at hm hs'
  rw [hb, extract_on] at hm
  rw [extract_rest] at hs'
  have exhausted : (more.bytes.size == head.bytes.size) = decide (bytes.size ≤ reach k) := by
    have hpos := chunk_pos k
    rw [hm, hb, ByteArray.size_extract, ByteArray.size_extract, Bool.eq_iff_iff, beq_iff_eq,
      decide_eq_true_iff]
    omega
  refine ⟨more, s', n', hm, hs', ?_⟩
  rw [run_rounds heads fuel hr, exhausted, hm, verdict]
  rfl

theorem First.rounds (first : First heads bytes k result) (h : r.Trickles has) {fuel i : Nat}
    {head : Buffer} (hi : i ≤ k) (hf : k < i + fuel) (hb : head.bytes = bytes.extract 0 (reach i))
    (hs : has s (bytes.extract (reach i) bytes.size) n) :
    ∃ s' n', r.run (rounds heads fuel (chunk i) head) s = (result, s') ∧
      has s' (bytes.extract (reach (k + 1)) bytes.size) n' := by
  induction fuel generalizing i head s n with
  | zero => omega
  | succ fuel ih =>
    obtain ⟨more, s', n', hm, hs', hr⟩ := round heads h fuel hb hs
    rcases Nat.eq_or_lt_of_le hi with rfl | hlt
    · rw [first.comes] at hr
      exact ⟨s', n', hr, hs'⟩
    · rw [first.before i hlt] at hr
      obtain ⟨s'', n'', hr', hs''⟩ := ih hlt (by omega) hm hs'
      exact ⟨s'', n'', hr.trans hr', hs''⟩

/-- However the bytes come, the pass ends with the first round that comes to anything. -/
theorem First.run (first : First heads bytes k result) (h : r.Trickles has)
    (hs : has s bytes n) : ∃ s' n', r.run (run heads) s = (result, s') ∧
      has s' (bytes.extract (reach (k + 1)) bytes.size) n' := by
  have hle := first.le_size
  have hbound := h.bound hs
  rw [BoundsPass.run, Reader.run_bind, Reader.run_horizon]
  refine first.rounds h (i := 0) (Nat.zero_le k) (by omega) ?_ ?_ (n := n)
  · exact ByteArray.extract_same.symm
  · rw [show reach 0 = 0 from rfl, ByteArray.extract_zero_size]
    exact hs

/-- All that the pass takes from a reader are the bytes up to the end of its last round. -/
theorem First.taken (first : First heads bytes k result) (h : r.Trickles has) (hs : has s bytes n) :
    ∃ s' calls, r.recorded.run (BoundsPass.run heads) (s, []) = (result, (s', calls)) ∧
      Intake.delivered calls = bytes.extract 0 (reach (k + 1)) := by
  obtain ⟨⟨s', calls⟩, n', hr, -, hw⟩ :=
    first.run (h.recorded bytes) (s := (s, [])) ⟨hs, ByteArray.empty_append⟩
  refine ⟨s', calls, hr, ?_⟩
  have hall := hw.trans (Piece.front (reach (k + 1)) bytes).split
  have hsize := congrArg ByteArray.size hall
  rw [ByteArray.size_append, ByteArray.size_append] at hsize
  exact ByteArray.append_inj_left hall (Nat.add_right_cancel hsize)

end Run

end ImageCache.BoundsPass
