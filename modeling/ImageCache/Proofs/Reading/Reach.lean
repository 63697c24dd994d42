import ImageCache.Proofs.Reading.Layers
import ImageCache.Proofs.Reading.Window
import ImageCache.Rehearsal.Stream

namespace ImageCache

variable {σ : Type}

namespace Rewindable

/-- The furthest position in the course of these calls, that before the first included. -/
def furthest (r : Reader σ) : List Call → Rewindable σ → Nat
  | [], s => s.position
  | call :: calls, s => max s.position (furthest r calls (answer r call s).2)

def Call.limit : Call → Nat
  | save limit => limit
  | read _ => 0
  | reset _ => 0

def largestLimit : List Call → Nat
  | [] => 0
  | call :: calls => max call.limit (largestLimit calls)

/-- How a window stands since a position was saved with a limit, with so many bytes kept ahead at
that time: the bytes that are kept span to the furthest position, or that lies beyond the limit. -/
structure Reach (saved limit held far : Nat) (s : Rewindable σ) : Prop where
  bound : s.limit = limit
  position : s.position ≤ far
  marked : ∀ m, s.mark = some m → m = saved ∧ saved ≤ s.position ∧
    far ≤ saved + s.history.size ∧ s.history.size ≤ max limit held
  lost : s.mark = none → saved + limit < far

/-- What a window keeps and will keep is within a bound. -/
structure Frugal (most : Nat) (s : Rewindable σ) : Prop where
  bound : s.limit ≤ most
  history : s.history.size ≤ most

theorem position_le_furthest (r : Reader σ) (calls : List Call) (s : Rewindable σ) :
    s.position ≤ furthest r calls s := by
  cases calls with
  | nil => exact Nat.le_refl _
  | cons call calls => exact Nat.le_max_left _ _

theorem ahead_size {s : Rewindable σ} {m : Nat} (hm : s.mark = some m) :
    s.ahead.size = s.history.size - (s.position - m) := by
  simp [Rewindable.ahead, hm]

theorem ahead_unmarked {s : Rewindable σ} (hm : s.mark = none) : s.ahead = .empty := by
  simp [Rewindable.ahead, hm]

namespace Reach

variable {saved limit held far : Nat} {s : Rewindable σ}

theorem start (s : Rewindable σ) (limit : Nat) :
    (s.savePosition limit).2.Reach s.position limit s.ahead.size s.position where
  bound := rfl
  position := Nat.le_refl _
  marked m hm := by
    obtain rfl : s.position = m := Option.some.inj hm
    exact ⟨rfl, Nat.le_refl _, Nat.le_add_right _ _, Nat.le_max_right _ _⟩
  lost := nofun

/-- To move within the kept bytes is no matter. -/
theorem moved (h : s.Reach saved limit held far) {m p : Nat} (hm : s.mark = some m)
    (hp : m ≤ p ∧ p ≤ m + s.history.size) :
    ({ s with position := p } : Rewindable σ).Reach saved limit held (max far p) := by
  obtain ⟨rfl, -, hspan, hkept⟩ := h.marked m hm
  refine ⟨h.bound, Nat.le_max_right _ _, fun k hk => ?_, fun hn => ?_⟩
  · obtain rfl : m = k := Option.some.inj (hm.symm.trans hk)
    exact ⟨rfl, hp.1, Nat.max_le.mpr ⟨hspan, hp.2⟩, hkept⟩
  · cases hm.symm.trans hn

/-- Bytes come from below at the end of those kept. They are kept too, or the limit is broken. -/
theorem receive (h : s.Reach saved limit held far) (hend : s.ahead.size = 0) (piece : ByteArray) :
    (s.receive piece).Reach saved limit held (max far (s.position + piece.size)) := by
  have hposition := h.position
  obtain hm | ⟨m, hm⟩ := s.mark.eq_none_or_eq_some
  · have hlost := h.lost hm
    rw [receive_unmarked hm]
    refine ⟨h.bound, Nat.le_max_right _ _, fun k hk => ?_, fun _ => ?_⟩
    · cases hm.symm.trans hk
    · exact Nat.lt_of_lt_of_le hlost (Nat.le_max_left _ _)
  · obtain ⟨rfl, hfrom, hspan, hkept⟩ := h.marked m hm
    have hlimit := h.bound
    rw [ahead_size hm] at hend
    -- Nothing kept lies ahead, so the position is where the kept bytes end.
    have hat : s.position = m + s.history.size := by omega
    by_cases hfit : s.history.size + piece.size ≤ s.limit
    · rw [receive_fits hm hfit]
      refine ⟨hlimit, Nat.le_max_right _ _, fun k hk => ?_, fun hn => ?_⟩
      · obtain rfl : m = k := Option.some.inj (hm.symm.trans hk)
        refine ⟨rfl, Nat.le_trans hfrom (Nat.le_add_right _ _), ?_, ?_⟩
        · simp only [ByteArray.size_append]
          omega
        · simp only [ByteArray.size_append]
          omega
      · cases hm.symm.trans hn
    · rw [receive_spills hm hfit]
      refine ⟨hlimit, Nat.le_max_right _ _, fun k hk => ?_, fun _ => ?_⟩
      · cases hk
      · omega

theorem below (h : s.Reach saved limit held far) (inner : σ) :
    ({ s with inner := inner } : Rewindable σ).Reach saved limit held far :=
  ⟨h.bound, h.position, h.marked, h.lost⟩

theorem read (h : s.Reach saved limit held far) (r : Reader σ) (n : Nat) :
    (s.read r n).2.Reach saved limit held (max far (s.read r n).2.position) := by
  unfold Rewindable.read
  split
  · next hahead =>
    obtain hm | ⟨m, hm⟩ := s.mark.eq_none_or_eq_some
    · exact absurd (ByteArray.size_eq_zero_iff.mpr (ahead_unmarked hm)) hahead
    · obtain ⟨rfl, hfrom, -⟩ := h.marked m hm
      have hsize := ahead_size hm
      apply h.moved hm
      simp only [ByteArray.size_extract]
      omega
  · next hahead =>
    have hend : s.ahead.size = 0 := Nat.eq_zero_of_not_pos fun hpos => hahead (Nat.ne_of_gt hpos)
    split
    · next piece inner _ =>
      have hnext := (h.below inner).receive hend piece
      rw [receive_position]
      exact hnext
    · next e inner _ =>
      simp only [Nat.max_eq_left h.position]
      exact h.below inner

theorem reset (h : s.Reach saved limit held far) (token : Nat) :
    (s.reset token).2.Reach saved limit held (max far (s.reset token).2.position) := by
  unfold Rewindable.reset
  split
  · next m hm =>
    split
    · next hin => exact h.moved hm hin
    · rw [Nat.max_eq_left h.position]
      exact h
  · rw [Nat.max_eq_left h.position]
    exact h

/-- No call but to save a position ends the reach. -/
theorem answer (h : s.Reach saved limit held far) (r : Reader σ) {call : Call}
    (unsaved : ∀ l, call ≠ .save l) :
    (answer r call s).2.Reach saved limit held (max far (answer r call s).2.position) := by
  cases call with
  | read n => exact h.read r n
  | save l => exact absurd rfl (unsaved l)
  | reset token => exact h.reset token

theorem after (h : s.Reach saved limit held far) (r : Reader σ) {calls : List Call}
    (unsaved : ∀ l, Call.save l ∉ calls) :
    (after r calls s).Reach saved limit held (max far (furthest r calls s)) := by
  induction calls generalizing s far with
  | nil =>
    rw [furthest, Nat.max_eq_left h.position]
    exact h
  | cons call calls ih =>
    have hcall : ∀ l, call ≠ .save l := fun l he => unsaved l (he ▸ List.mem_cons_self)
    have hcalls : ∀ l, Call.save l ∉ calls := fun l hl => unsaved l (List.mem_cons_of_mem _ hl)
    have hposition := h.position
    have hnext := ih (h.answer r hcall) hcalls
    have hfar : max far (furthest r (call :: calls) s) =
        max (max far (Rewindable.answer r call s).2.position)
          (furthest r calls (Rewindable.answer r call s).2) := by
      rw [furthest]
      have hle : (Rewindable.answer r call s).2.position ≤
          furthest r calls (Rewindable.answer r call s).2 := position_le_furthest r calls _
      omega
    rw [hfar]
    exact hnext

/-- All positions up to the furthest can be gone back to, if that is within the limit. -/
theorem reset_ok (h : s.Reach saved limit held far) (within : far ≤ saved + limit) {token : Nat}
    (hfrom : saved ≤ token) (hto : token ≤ far) :
    s.reset token = (.ok (), { s with position := token }) := by
  obtain hm | ⟨m, hm⟩ := s.mark.eq_none_or_eq_some
  · have hlost := h.lost hm
    omega
  · obtain ⟨rfl, -, hspan, -⟩ := h.marked m hm
    have hin : m ≤ token ∧ token ≤ m + s.history.size := ⟨hfrom, Nat.le_trans hto hspan⟩
    simp [Rewindable.reset, hm, hin]

/-- Beyond the limit and what was still kept there is no way back. -/
theorem reset_error (h : s.Reach saved limit held far) (beyond : saved + max limit held < far)
    (token : Nat) : s.reset token = (.error .outsideWindow, s) := by
  obtain hm | ⟨m, hm⟩ := s.mark.eq_none_or_eq_some
  · simp [Rewindable.reset, hm]
  · obtain ⟨rfl, -, hspan, hkept⟩ := h.marked m hm
    omega

end Reach

namespace Frugal

variable {most : Nat} {s : Rewindable σ}

theorem mono {more : Nat} (h : s.Frugal most) (hle : most ≤ more) : s.Frugal more :=
  ⟨Nat.le_trans h.bound hle, Nat.le_trans h.history hle⟩

theorem ahead (h : s.Frugal most) : s.ahead.size ≤ most := by
  have hkept := h.history
  obtain hm | ⟨m, hm⟩ := s.mark.eq_none_or_eq_some
  · rw [ahead_unmarked hm]
    exact Nat.zero_le _
  · rw [ahead_size hm]
    omega

theorem save (h : s.Frugal most) (limit : Nat) : (s.savePosition limit).2.Frugal (max most limit) :=
  ⟨Nat.le_max_right _ _, Nat.le_trans h.ahead (Nat.le_max_left _ _)⟩

theorem receive (h : s.Frugal most) (piece : ByteArray) : (s.receive piece).Frugal most := by
  obtain hm | ⟨m, hm⟩ := s.mark.eq_none_or_eq_some
  · rw [receive_unmarked hm]
    exact ⟨h.bound, h.history⟩
  · by_cases hfit : s.history.size + piece.size ≤ s.limit
    · rw [receive_fits hm hfit]
      refine ⟨h.bound, ?_⟩
      rw [ByteArray.size_append]
      exact Nat.le_trans hfit h.bound
    · rw [receive_spills hm hfit]
      exact ⟨h.bound, Nat.zero_le _⟩

theorem read (h : s.Frugal most) (r : Reader σ) (n : Nat) : (s.read r n).2.Frugal most := by
  unfold Rewindable.read
  split
  · exact ⟨h.bound, h.history⟩
  · split
    · next piece inner _ =>
      have hbelow : ({ s with inner := inner } : Rewindable σ).Frugal most := ⟨h.bound, h.history⟩
      exact hbelow.receive piece
    · exact ⟨h.bound, h.history⟩

theorem reset (h : s.Frugal most) (token : Nat) : (s.reset token).2.Frugal most := by
  unfold Rewindable.reset
  split
  · split
    · exact ⟨h.bound, h.history⟩
    · exact h
  · exact h

/-- No call makes a window keep more than was asked for before or by the call. -/
theorem answer (h : s.Frugal most) (r : Reader σ) (call : Call) :
    (answer r call s).2.Frugal (max most call.limit) := by
  cases call with
  | read n => exact (h.read r n).mono (Nat.le_max_left _ _)
  | save limit => exact h.save limit
  | reset token => exact (h.reset token).mono (Nat.le_max_left _ _)

theorem after (h : s.Frugal most) (r : Reader σ) (calls : List Call) :
    (after r calls s).Frugal (max most (largestLimit calls)) := by
  induction calls generalizing s most with
  | nil => exact h.mono (Nat.le_max_left _ _)
  | cons call calls ih =>
    have hnext := ih (h.answer r call)
    rw [Nat.max_assoc] at hnext
    exact hnext

end Frugal

/-- Since a position was saved, whatever came before: as long as none lies further from it than the
limit, there is a way back to each from the saved to the furthest one; once one lies further than
the limit and than the bytes that were still kept, there is none to any. In no run and at no time
more bytes are kept than the largest limit so far. -/
theorem window_holds (r : Reader σ) {s marked : Rewindable σ} {limit saved : Nat}
    {later : List Call} (save : s.savePosition limit = (saved, marked))
    (unsaved : ∀ l, Call.save l ∉ later) :
    (furthest r later marked ≤ saved + limit → saved ≤ furthest r later marked ∧
      ∀ token, saved ≤ token → token ≤ furthest r later marked →
        (after r later marked).reset token =
          (.ok (), { after r later marked with position := token })) ∧
    (saved + max limit s.ahead.size < furthest r later marked →
      ∀ token, (after r later marked).reset token =
        (.error .outsideWindow, after r later marked)) ∧
    ∀ inner calls, (after r calls (start inner)).history.size ≤ largestLimit calls := by
  obtain ⟨hsaved, hmarked⟩ := Prod.mk.inj save
  have hreach := Reach.start s limit
  have hfrom := position_le_furthest r later (s.savePosition limit).2
  rw [show (s.savePosition limit).2.position = s.position from rfl] at hfrom
  rw [show (s.savePosition limit).2 = marked from hmarked, hsaved] at hreach hfrom
  have hnow := hreach.after r unsaved
  rw [Nat.max_eq_right hfrom] at hnow
  refine ⟨fun within => ⟨hfrom, fun token => hnow.reset_ok within⟩, hnow.reset_error, ?_⟩
  intro inner calls
  have hfresh : (start inner).Frugal 0 := ⟨Nat.le_refl 0, Nat.le_refl 0⟩
  have hkept := (hfresh.after r calls).history
  rw [Nat.zero_max] at hkept
  exact hkept

/-- Nine bytes: five come at once, then a call fails, then two come at a time. -/
def nineBytes : Rehearsal.Stream :=
  ⟨⟨#[1, 2, 3, 4, 5, 6, 7, 8, 9]⟩, 0, [.atMost 5, .fails .shortRead], [.atMost 2], none⟩

def fourAhead : Rewindable Rehearsal.Stream :=
  after Rehearsal.Stream.reader [.save 6, .read 8, .reset 0, .read 1] (start nineBytes)

def nearCalls : List Call := [.read 2, .read 0, .reset 1, .read 1]

def farCalls : List Call := [.read 8, .read 8, .reset 2, .read 3, .read 3]

/-- A position is saved anew, for two bytes, with four still ahead. -/
theorem fourAhead_holds :
    ∃ marked, fourAhead.savePosition 2 = (1, marked) ∧ fourAhead.ahead.size = 4 ∧
      furthest Rehearsal.Stream.reader nearCalls marked = 3 ∧
      (∀ token, 1 ≤ token → token ≤ 3 →
        ((after Rehearsal.Stream.reader nearCalls marked).reset token).1 = .ok ()) ∧
      furthest Rehearsal.Stream.reader farCalls marked = 7 ∧
      ∀ token, ((after Rehearsal.Stream.reader farCalls marked).reset token).1 =
        .error .outsideWindow := by
  have hsave : fourAhead.savePosition 2 = (1, (fourAhead.savePosition 2).2) := rfl
  have hahead : fourAhead.ahead.size = 4 := by decide +kernel
  have hnear : furthest Rehearsal.Stream.reader nearCalls (fourAhead.savePosition 2).2 = 3 := by
    decide +kernel
  have hfar : furthest Rehearsal.Stream.reader farCalls (fourAhead.savePosition 2).2 = 7 := by
    decide +kernel
  have nearUnsaved : ∀ l, Call.save l ∉ nearCalls := by simp [nearCalls]
  have farUnsaved : ∀ l, Call.save l ∉ farCalls := by simp [farCalls]
  obtain ⟨near, -, -⟩ := window_holds Rehearsal.Stream.reader hsave nearUnsaved
  obtain ⟨-, far, -⟩ := window_holds Rehearsal.Stream.reader hsave farUnsaved
  rw [hnear] at near
  rw [hahead, hfar] at far
  refine ⟨_, hsave, hahead, hnear, ?_, hfar, ?_⟩
  · intro token hfrom hto
    rw [(near (by decide)).2 token hfrom hto]
  · intro token
    rw [far (by decide) token]

end Rewindable

end ImageCache
