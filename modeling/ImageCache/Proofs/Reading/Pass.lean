import ImageCache.Proofs.Reading.Mirror
import ImageCache.Proofs.Reading.Window

namespace ImageCache

variable {σ α : Type}

def Reader.behind (r : Reader σ) : Reader (ByteArray × σ) where
  read n := fun (front, s) =>
    if front.size ≠ 0 then (.ok (front.extract 0 n), (front.extract n front.size, s))
    else
      let (reply, s) := r.read n s
      (reply, (front, s))
  horizon := fun (front, s) => front.size + r.horizon s

section Behind

variable {r : Reader σ} {front : ByteArray} {s s' : σ} {n : Nat} {reply : Except Fault ByteArray}

theorem Reader.behind_front (h : front.size ≠ 0) : r.behind.read n (front, s) =
    (.ok (front.extract 0 n), (front.extract n front.size, s)) := by
  simp only [behind, if_pos h]

theorem Reader.behind_own (h : front.size = 0) (hr : r.read n s = (reply, s')) :
    r.behind.read n (front, s) = (reply, (front, s')) := by
  simp only [behind, if_neg (not_not_intro h), hr]

/-- Writing the calls down changes nothing. -/
theorem Reader.recorded_mirrors (r : Reader σ) : r.recorded.Mirrors r fun s t => s.1 = t where
  read := by
    rintro ⟨s, calls⟩ _ rfl n
    exact ⟨(r.read n s).1, _, (r.read n s).2, rfl, rfl, rfl⟩
  horizon := by
    rintro ⟨s, calls⟩ _ rfl
    rfl

theorem Reader.Mirrors.behind {τ : Type} {r' : Reader τ} {like : σ → τ → Prop}
    (h : r.Mirrors r' like) :
    r.behind.Mirrors r'.behind fun s t => s.1 = t.1 ∧ like s.2 t.2 where
  read := by
    rintro ⟨front, s⟩ ⟨_, t⟩ ⟨rfl, hl⟩ n
    by_cases hf : front.size = 0
    · obtain ⟨reply, s', t', hr, hr', hl'⟩ := h.read hl n
      exact ⟨reply, (front, s'), (front, t'), behind_own hf hr, behind_own hf hr', rfl, hl'⟩
    · exact ⟨_, _, _, behind_front hf, behind_front hf, rfl, hl⟩
  horizon := by
    rintro ⟨front, s⟩ ⟨_, t⟩ ⟨rfl, hl⟩
    exact congrArg (front.size + ·) (h.horizon hl)

end Behind

/-- What holds of a state and is kept by every reply holds after a whole reading. -/
theorem Reader.run_keeps {r : Reader σ} {φ : σ → Prop} (h : ∀ n s, φ s → φ (r.read n s).2)
    (p : Reading α) {s : σ} (hs : φ s) : φ (r.run p s).2 := by
  induction p generalizing s with
  | done a => exact hs
  | ask q next ih =>
    cases q with
    | upTo n => exact ih _ (h n s hs)
    | horizon => exact ih _ hs

/-- All that came from the reader, by these calls and those after them, is what was handed out and
behind that what stands in front and was not. -/
structure Reader.HandsOn (calls : List Intake) (t : (ByteArray × (σ × List Intake)) × List Intake) :
    Prop where
  later : calls <+: t.1.2.2
  all : Intake.delivered t.2 ++ t.1.1 = Intake.delivered t.1.2.2

theorem Reader.behind_hands_on (r : Reader σ) (calls : List Intake) (n : Nat)
    (t : (ByteArray × (σ × List Intake)) × List Intake) (h : HandsOn calls t) :
    HandsOn calls (r.recorded.behind.recorded.read n t).2 := by
  obtain ⟨⟨front, s, later⟩, handed⟩ := t
  obtain ⟨hl, ha⟩ := h
  dsimp only at hl ha
  by_cases hf : front.size = 0
  · obtain rfl : front = .empty := ByteArray.size_eq_zero_iff.mp hf
    rw [ByteArray.append_empty] at ha
    obtain ⟨⟨reply, s'⟩, hr⟩ : ∃ out, r.read n s = out := ⟨_, rfl⟩
    rw [recorded_read handed (behind_own hf (recorded_read later hr))]
    refine ⟨hl.trans (List.prefix_append _ _), ?_⟩
    cases reply with
    | ok bytes => simp [ha]
    | error e => simp [ha]
  · have hsplit := (Piece.front n front).split
    rw [recorded_read handed (behind_front hf)]
    refine ⟨hl, ?_⟩
    rw [Intake.delivered_append_ok, ByteArray.append_assoc, ← hsplit, ha]

/-- Whatever is read behind the bytes of these calls, and in whatever sizes, begins with them and
goes on with what the reader has. -/
theorem Reader.run_behind (r : Reader σ) (p : Reading α) (calls : List Intake) (s : σ) :
    ∃ a front left later handed,
      r.recorded.behind.recorded.run p ((Intake.delivered calls, (s, calls)), []) =
        (a, ((front, (left, later)), handed)) ∧
      (r.behind.run p (Intake.delivered calls, s)).1 = a ∧ calls <+: later ∧
      Intake.delivered handed ++ front = Intake.delivered later := by
  have start : HandsOn calls ((Intake.delivered calls, (s, calls)), []) :=
    ⟨List.prefix_refl calls, ByteArray.empty_append⟩
  have hands := run_keeps (behind_hands_on r calls) p start
  obtain ⟨a, s', t', hr, hb, -⟩ := (recorded_mirrors r.recorded.behind).run p
    (s := ((Intake.delivered calls, (s, calls)), [])) rfl
  obtain ⟨a', s'', t'', hr', hb', -⟩ := (recorded_mirrors r).behind.run p
    (s := (Intake.delivered calls, (s, calls))) (t := (Intake.delivered calls, s)) ⟨rfl, rfl⟩
  obtain ⟨⟨front, left, later⟩, handed⟩ := s'
  rw [hr] at hands
  refine ⟨a, front, left, later, handed, hr, ?_, hands.later, hands.all⟩
  rw [hb']
  exact congrArg Prod.fst (hr'.symm.trans hb)

namespace Rewindable

/-- Marked at its start and only read since. These bytes came from below and all of them were handed
out; they are kept as long as they fit into the window. -/
structure Onward (limit : Nat) (s : Rewindable σ) (taken : ByteArray) : Prop where
  tracks : s.Tracks taken
  position : s.position = taken.size
  bound : s.limit = limit
  mark : s.mark = if taken.size ≤ limit then some 0 else none

namespace Onward

variable {limit : Nat} {s : Rewindable σ} {taken : ByteArray}

theorem start (inner : σ) (limit : Nat) :
    ((Rewindable.start inner).savePosition limit).2.Onward limit .empty where
  tracks := (Tracks.start inner).save limit
  position := rfl
  bound := rfl
  mark := (if_pos (Nat.zero_le limit)).symm

theorem below (h : s.Onward limit taken) (inner : σ) :
    ({ s with inner := inner } : Rewindable σ).Onward limit taken :=
  ⟨h.tracks.below inner, h.position, h.bound, h.mark⟩

theorem ahead (h : s.Onward limit taken) : s.ahead.size = 0 :=
  h.tracks.ahead_empty_iff.mpr h.position

/-- As long as the way back is open, all that came is kept. -/
theorem history (h : s.Onward limit taken) (hfit : taken.size ≤ limit) :
    s.mark = some 0 ∧ s.history = taken := by
  have hm := h.mark
  rw [if_pos hfit] at hm
  have hh := (h.tracks.marked 0 hm).2
  rw [ByteArray.extract_zero_size] at hh
  exact ⟨hm, hh⟩

theorem receive (h : s.Onward limit taken) (piece : ByteArray) :
    (s.receive piece).Onward limit (taken ++ piece) := by
  have htracks := h.tracks.receive h.position piece
  have hposition : (s.receive piece).position = (taken ++ piece).size := by
    rw [receive_position, h.position, ByteArray.size_append]
  by_cases hfit : taken.size ≤ limit
  · obtain ⟨hm, hh⟩ := h.history hfit
    have hsize : s.history.size + piece.size = (taken ++ piece).size := by
      rw [hh, ByteArray.size_append]
    by_cases hmore : (taken ++ piece).size ≤ limit
    · have hr := receive_fits hm (by rw [hsize, h.bound]; exact hmore)
      refine ⟨htracks, hposition, ?_, ?_⟩
      · rw [hr]
        exact h.bound
      · rw [hr, if_pos hmore]
        exact hm
    · have hr := receive_spills hm (by rw [hsize, h.bound]; exact hmore)
      refine ⟨htracks, hposition, ?_, ?_⟩
      · rw [hr]
        exact h.bound
      · rw [hr, if_neg hmore]
  · have hm := h.mark
    rw [if_neg hfit] at hm
    have hr := receive_unmarked hm piece
    have hmore : ¬ (taken ++ piece).size ≤ limit := by
      rw [ByteArray.size_append]
      omega
    refine ⟨htracks, hposition, ?_, ?_⟩
    · rw [hr]
      exact h.bound
    · rw [hr, if_neg hmore]
      exact hm

/-- The way back leads to the front of all that came, if that fits into the window. -/
theorem reset_fits (h : s.Onward limit taken) (hfit : taken.size ≤ limit) :
    ∃ s', s.reset 0 = (.ok (), s') ∧ s'.inner = s.inner ∧ s'.ahead = taken ∧ s'.Tracks taken := by
  obtain ⟨hm, hh⟩ := h.history hfit
  have hr : s.reset 0 = (.ok (), { s with position := 0 }) := by
    simp [Rewindable.reset, hm]
  have htracks := h.tracks.reset 0
  rw [hr] at htracks
  refine ⟨_, hr, rfl, ?_, htracks⟩
  rw [htracks.ahead]
  exact ByteArray.extract_zero_size

theorem reset_spilled (h : s.Onward limit taken) (hspill : limit < taken.size) :
    s.reset 0 = (.error .outsideWindow, s) := by
  have hm := h.mark
  rw [if_neg (Nat.not_le.mpr hspill)] at hm
  simp [Rewindable.reset, hm]

end Onward

/-- As long as the window was only read, to read from it is to read from below. -/
theorem first_pass (r : Reader σ) (limit : Nat) : (reader r).Mirrors r.recorded
    fun s t => s.inner = t.1 ∧ s.Onward limit (Intake.delivered t.2) where
  read := by
    rintro s ⟨_, calls⟩ ⟨rfl, h⟩ n
    have ha := h.ahead
    obtain ⟨⟨reply, inner⟩, hr⟩ : ∃ out, r.read n s.inner = out := ⟨_, rfl⟩
    cases reply with
    | ok piece =>
      have hnext := (h.below inner).receive piece
      refine ⟨.ok piece, ({ s with inner := inner } : Rewindable σ).receive piece,
        (inner, calls ++ [⟨n, .ok piece⟩]), ?_, ?_, receive_inner _ _, ?_⟩
      · simp [reader, read, ha, hr]
      · exact Reader.recorded_read calls hr
      · rw [Intake.delivered_append_ok]
        exact hnext
    | error e =>
      refine ⟨.error e, { s with inner := inner }, (inner, calls ++ [⟨n, .error e⟩]), ?_, ?_, rfl,
        ?_⟩
      · simp [reader, read, ha, hr]
      · exact Reader.recorded_read calls hr
      · rw [Intake.delivered_append_error]
        exact h.below inner
  horizon := by
    rintro s ⟨_, calls⟩ ⟨rfl, h⟩
    simp [reader, Reader.recorded, h.ahead]

/-- To read from the window is to read what lies ahead in it and then from below. -/
theorem second_pass (r : Reader σ) : (reader r).Mirrors r.behind
    fun s t => s.inner = t.2 ∧ s.ahead = t.1 ∧ ∃ came, s.Tracks came where
  read := by
    rintro s ⟨_, _⟩ ⟨rfl, rfl, came, h⟩ n
    by_cases ha : s.ahead.size = 0
    · obtain ⟨⟨reply, inner⟩, hr⟩ : ∃ out, r.read n s.inner = out := ⟨_, rfl⟩
      have hend := h.ahead_empty_iff.mp ha
      cases reply with
      | ok piece =>
        have hnext := (h.below inner).receive hend piece
        have hempty :
            (({ s with inner := inner } : Rewindable σ).receive piece).ahead.size = 0 := by
          rw [hnext.ahead_empty_iff, receive_position, ByteArray.size_append, hend]
        refine ⟨.ok piece, ({ s with inner := inner } : Rewindable σ).receive piece,
          (s.ahead, inner), ?_, ?_, receive_inner _ _, ?_, _, hnext⟩
        · simp [reader, read, ha, hr]
        · exact Reader.behind_own ha hr
        · rw [ByteArray.size_eq_zero_iff.mp hempty, ByteArray.size_eq_zero_iff.mp ha]
      | error e =>
        refine ⟨.error e, { s with inner := inner }, (s.ahead, inner), ?_, ?_, rfl, rfl, came,
          h.below inner⟩
        · simp [reader, read, ha, hr]
        · exact Reader.behind_own ha hr
    · obtain ⟨hpiece, hnext⟩ := h.replay n
      refine ⟨.ok (s.ahead.extract 0 n), _, (s.ahead.extract n s.ahead.size, s.inner), ?_, ?_, ?_,
        ?_, came, hnext⟩
      · simp [reader, read, ha]
      · exact Reader.behind_front ha
      · rfl
      · have hrest := extract_behind came s.position n
        rw [hnext.ahead]
        dsimp only
        rw [h.ahead, ← extract_from]
        exact hrest
  horizon := by
    rintro s ⟨_, _⟩ ⟨rfl, rfl, -⟩
    rfl

end Rewindable

end ImageCache
