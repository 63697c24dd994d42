import ImageCache.Proofs.Reading.Layers

namespace ImageCache

variable {σ : Type}

/-- A slice ends where its bytes do. -/
theorem extract_taken (bytes : ByteArray) (i j : Nat) :
    bytes.extract i (i + (bytes.extract i j).size) = bytes.extract i j := by
  refine ByteArray.ext_getElem ?_ fun k hk hk' => ?_
  · simp only [ByteArray.size_extract]
    omega
  · rw [ByteArray.getElem_extract, ByteArray.getElem_extract]

theorem extract_append_past {front : ByteArray} {i : Nat} (h : i ≤ front.size)
    (back : ByteArray) :
    (front ++ back).extract i (front ++ back).size = front.extract i front.size ++ back := by
  have hfront : front.extract i (front.size + back.size) = front.extract i front.size := by
    rw [← extract_taken, ByteArray.size_extract]
    congr 1
    omega
  have hback : back.extract (i - front.size) (front.size + back.size - front.size) = back := by
    rw [Nat.sub_eq_zero_of_le h, Nat.add_sub_cancel_left, ByteArray.extract_zero_size]
  rw [ByteArray.size_append, ByteArray.extract_append, hfront, hback]

/-- A call to a reader: how many bytes were asked for, and what came of it. -/
structure Intake where
  wanted : Nat
  reply : Except Fault ByteArray

namespace Intake

def bytes (i : Intake) : ByteArray :=
  match i.reply with
  | .ok bytes => bytes
  | .error _ => .empty

def delivered (calls : List Intake) : ByteArray :=
  calls.foldl (fun came i => came ++ i.bytes) .empty

@[simp]
theorem delivered_append_ok (calls : List Intake) (n : Nat) (bytes : ByteArray) :
    delivered (calls ++ [⟨n, .ok bytes⟩]) = delivered calls ++ bytes := by
  simp [delivered, Intake.bytes]

@[simp]
theorem delivered_append_error (calls : List Intake) (n : Nat) (e : Fault) :
    delivered (calls ++ [⟨n, .error e⟩]) = delivered calls := by
  simp [delivered, Intake.bytes]

end Intake

/-- The reader with every call to it written down. -/
def Reader.recorded (r : Reader σ) : Reader (σ × List Intake) where
  read n := fun (s, calls) =>
    let (reply, s) := r.read n s
    (reply, (s, calls ++ [⟨n, reply⟩]))
  horizon s := r.horizon s.1

theorem Reader.recorded_read {r : Reader σ} {s s' : σ} {n : Nat} {reply : Except Fault ByteArray}
    (calls : List Intake) (hr : r.read n s = (reply, s')) :
    r.recorded.read n (s, calls) = (reply, (s', calls ++ [⟨n, reply⟩])) := by
  simp only [recorded, hr]

/-- What came and what lies ahead make up the whole. -/
theorem Reader.Trickles.recorded {r : Reader σ} {has : σ → ByteArray → Nat → Prop}
    (h : r.Trickles has) (whole : ByteArray) : r.recorded.Trickles fun t ahead k =>
      has t.1 ahead k ∧ Intake.delivered t.2 ++ ahead = whole where
  read := by
    intro t ahead k hs n
    obtain ⟨s, calls⟩ := t
    obtain ⟨hs, hw⟩ := hs
    rcases h.read hs n with ⟨piece, rest, s', k', hr, hp, hk, hs'⟩ | ⟨e, s', k', hr, he, hk, hs'⟩
    · refine .inl ⟨piece, rest, _, k', recorded_read calls hr, hp, hk, hs', ?_⟩
      rw [Intake.delivered_append_ok, ByteArray.append_assoc, ← hp.split, hw]
    · refine .inr ⟨e, _, k', recorded_read calls hr, he, hk, hs', ?_⟩
      rw [Intake.delivered_append_error, hw]
  bound hs := h.bound hs.1

namespace Rewindable

inductive Call where
  | read (n : Nat)
  | save (limit : Nat)
  | reset (token : Nat)

namespace Call

@[reducible] def Reply : Call → Type
  | read _ => Except Fault ByteArray
  | save _ => Nat
  | reset _ => Except Fault Unit

end Call

def answer (r : Reader σ) : (call : Call) → Rewindable σ → call.Reply × Rewindable σ
  | .read n, s => s.read r n
  | .save limit, s => s.savePosition limit
  | .reset token, s => s.reset token

def after (r : Reader σ) (calls : List Call) (s : Rewindable σ) : Rewindable σ :=
  calls.foldl (fun s call => (answer r call s).2) s

def came (s : Rewindable (σ × List Intake)) : ByteArray := Intake.delivered s.inner.2

/-- How a state stands to the bytes that came from below: the position lies within them, and at
their end if there is no mark; else they are kept from the mark on. -/
structure Tracks (s : Rewindable σ) (bytes : ByteArray) : Prop where
  within : s.position ≤ bytes.size
  unmarked : s.mark = none → s.position = bytes.size
  marked : ∀ m, s.mark = some m → m ≤ s.position ∧ s.history = bytes.extract m bytes.size

namespace Tracks

variable {s : Rewindable σ} {bytes : ByteArray}

theorem start (inner : σ) : Tracks (start inner) .empty :=
  ⟨Nat.le_refl 0, fun _ => rfl, nofun⟩

/-- What came and was not yet handed out, or was taken back, lies ahead. -/
theorem ahead (h : s.Tracks bytes) : s.ahead = bytes.extract s.position bytes.size := by
  cases hm : s.mark with
  | none =>
    rw [extract_past (Nat.le_of_eq (h.unmarked hm).symm)]
    simp [Rewindable.ahead, hm]
  | some m =>
    obtain ⟨hle, hh⟩ := h.marked m hm
    have hw := h.within
    simp only [Rewindable.ahead, hm, hh]
    rw [ByteArray.extract_extract]
    congr 1
    · omega
    · simp only [ByteArray.size_extract]
      omega

/-- Nothing lies ahead exactly at the end of what came. -/
theorem ahead_empty_iff (h : s.Tracks bytes) : s.ahead.size = 0 ↔ s.position = bytes.size := by
  have hw := h.within
  rw [h.ahead, ByteArray.size_extract]
  omega

theorem save (h : s.Tracks bytes) (limit : Nat) : (s.savePosition limit).2.Tracks bytes where
  within := h.within
  unmarked := nofun
  marked m hm := by
    obtain rfl : s.position = m := Option.some.inj hm
    exact ⟨Nat.le_refl _, h.ahead⟩

theorem reset (h : s.Tracks bytes) (token : Nat) : (s.reset token).2.Tracks bytes := by
  unfold Rewindable.reset
  split
  · next m hm =>
    obtain ⟨hle, hh⟩ := h.marked m hm
    split
    · next hin =>
      -- The kept bytes end where those that came do, so the token lies within both.
      have hw := h.within
      have hsize : s.history.size = bytes.size - m := by
        rw [hh, ByteArray.size_extract, Nat.min_self]
      refine ⟨?_, fun hn => ?_, fun k hk => ?_⟩
      · change token ≤ bytes.size
        omega
      · cases hm.symm.trans hn
      · obtain rfl : m = k := Option.some.inj (hm.symm.trans hk)
        exact ⟨hin.1, hh⟩
    · exact h
  · exact h

/-- Kept bytes that are handed out are those at the position. -/
theorem replay (h : s.Tracks bytes) (n : Nat) :
    s.ahead.extract 0 n =
        bytes.extract s.position (s.position + (s.ahead.extract 0 n).size) ∧
      ({ s with position := s.position + (s.ahead.extract 0 n).size } : Rewindable σ).Tracks
        bytes := by
  have hw := h.within
  have hp : s.ahead.extract 0 n = bytes.extract s.position (s.position + n) := by
    rw [h.ahead, extract_from]
  have hs : (s.ahead.extract 0 n).size = min (s.position + n) bytes.size - s.position := by
    rw [hp, ByteArray.size_extract]
  refine ⟨?_, ?_, fun hm => ?_, fun m hm => ?_⟩
  · rw [hp, extract_taken]
  · change s.position + (s.ahead.extract 0 n).size ≤ bytes.size
    omega
  · have hu := h.unmarked hm
    change s.position + (s.ahead.extract 0 n).size = bytes.size
    omega
  · obtain ⟨hle, hh⟩ := h.marked m hm
    exact ⟨Nat.le_trans hle (Nat.le_add_right _ _), hh⟩

/-- What the reader below has become is no matter. -/
theorem below (h : s.Tracks bytes) (inner : σ) :
    ({ s with inner := inner } : Rewindable σ).Tracks bytes :=
  ⟨h.within, h.unmarked, h.marked⟩

/-- Where all that came before was handed out, a piece that comes from below is the next to come.
-/
theorem receive (h : s.Tracks bytes) (hend : s.position = bytes.size) (piece : ByteArray) :
    (s.receive piece).Tracks (bytes ++ piece) := by
  have hmoved : s.position + piece.size = (bytes ++ piece).size := by
    rw [hend, ByteArray.size_append]
  obtain hm | ⟨m, hm⟩ := s.mark.eq_none_or_eq_some
  · rw [receive_unmarked hm]
    refine ⟨Nat.le_of_eq hmoved, fun _ => hmoved, fun m hk => ?_⟩
    cases hm.symm.trans hk
  · obtain ⟨hle, hh⟩ := h.marked m hm
    by_cases hfit : s.history.size + piece.size ≤ s.limit
    · rw [receive_fits hm hfit]
      refine ⟨Nat.le_of_eq hmoved, fun hn => ?_, fun k hk => ?_⟩
      · cases hm.symm.trans hn
      · obtain rfl : m = k := Option.some.inj (hm.symm.trans hk)
        refine ⟨Nat.le_trans hle (Nat.le_add_right _ _), ?_⟩
        rw [extract_append_past (hend ▸ hle), ← hh]
    · rw [receive_spills hm hfit]
      refine ⟨Nat.le_of_eq hmoved, fun _ => hmoved, fun k hk => ?_⟩
      cases hk

end Tracks

/-- What a call does to a window, told by the bytes that came from below. A read at their end asks
below once, for as many bytes as it was asked itself, and passes on the reply. A read before it asks
nothing below and hands out at least one byte, if any was asked for. All that is handed out are
bytes at the position, which moves on behind them. To save and to go back asks nothing below. A read
that fails leaves position, mark and kept bytes, and going back in vain leaves all as it was. -/
def Transparent (before later : Rewindable (σ × List Intake)) :
    (call : Call) → call.Reply → Prop
  | .read n, reply =>
    (before.position = before.came.size → later.inner.2 = before.inner.2 ++ [⟨n, reply⟩]) ∧
    (before.position ≠ before.came.size → later.inner = before.inner ∧
      ∃ bytes, reply = .ok bytes ∧ (0 < n → 0 < bytes.size)) ∧
    (∀ bytes, reply = .ok bytes → later.position = before.position + bytes.size ∧
      later.position ≤ later.came.size ∧
      bytes = later.came.extract before.position later.position) ∧
    ∀ e, reply = .error e → later.position = before.position ∧ later.mark = before.mark ∧
      later.limit = before.limit ∧ later.history = before.history
  | .save _, reply =>
    reply = before.position ∧ later.position = before.position ∧ later.inner = before.inner
  | .reset token, reply =>
    later.inner = before.inner ∧ (reply = .ok () → later.position = token) ∧
      ∀ e, reply = .error e → later = before

variable {s : Rewindable (σ × List Intake)}

/-- Where nothing lies ahead the reader below is asked, and what comes of it is passed on. -/
theorem Tracks.intake (r : Reader σ) (h : s.Tracks s.came) (n : Nat) (hend : s.ahead.size = 0) :
    s.Transparent (s.read r.recorded n).2 (.read n) (s.read r.recorded n).1 ∧
      (s.read r.recorded n).2.Tracks (s.read r.recorded n).2.came := by
  have hat := h.ahead_empty_iff.mp hend
  obtain ⟨⟨reply, inner⟩, hr⟩ : ∃ out, r.read n s.inner.1 = out := ⟨_, rfl⟩
  have hrec : r.recorded.read n s.inner = (reply, (inner, s.inner.2 ++ [⟨n, reply⟩])) := by
    simp only [Reader.recorded, hr]
  cases reply with
  | ok piece =>
    let asked : Rewindable (σ × List Intake) :=
      { s with inner := (inner, s.inner.2 ++ [⟨n, .ok piece⟩]) }
    have hread : s.read r.recorded n = (.ok piece, asked.receive piece) := by
      simp [Rewindable.read, hend, hrec, asked]
    have hcame : (asked.receive piece).came = s.came ++ piece := by
      simp [came, asked]
    have hmoved : (asked.receive piece).position = s.position + piece.size := by
      simp [asked]
    have htracks := (h.below asked.inner).receive hat piece
    rw [hread, hcame]
    refine ⟨⟨fun _ => by simp [asked], fun hne => absurd hat hne, fun bytes hb => ?_,
      fun e he => ?_⟩, htracks⟩
    · obtain rfl := Except.ok.inj hb
      refine ⟨hmoved, hcame ▸ htracks.within, ?_⟩
      rw [hcame, hmoved, hat]
      exact (ByteArray.extract_append_eq_right rfl rfl).symm
    · cases he
  | error e =>
    have hread : s.read r.recorded n =
        (.error e, { s with inner := (inner, s.inner.2 ++ [⟨n, .error e⟩]) }) := by
      simp [Rewindable.read, hend, hrec]
    have hcame : came { s with inner := (inner, s.inner.2 ++ [⟨n, .error e⟩]) } = s.came := by
      simp [came]
    rw [hread, hcame]
    refine ⟨⟨fun _ => rfl, fun hne => absurd hat hne, fun bytes hb => ?_,
      fun _ _ => ⟨rfl, rfl, rfl, rfl⟩⟩, h.below _⟩
    cases hb

/-- A window that tracks what came goes on doing so, whatever it is asked next. -/
theorem Tracks.answer (r : Reader σ) (h : s.Tracks s.came) (call : Call) :
    s.Transparent (answer r.recorded call s).2 call (answer r.recorded call s).1 ∧
      (answer r.recorded call s).2.Tracks (answer r.recorded call s).2.came := by
  cases call with
  | read n =>
    by_cases ha : s.ahead.size = 0
    · exact h.intake r n ha
    · obtain ⟨hpiece, htracks⟩ := h.replay n
      have hread : s.read r.recorded n = (.ok (s.ahead.extract 0 n),
          { s with position := s.position + (s.ahead.extract 0 n).size }) := by
        simp [Rewindable.read, ha]
      have hpos : 0 < n → 0 < (s.ahead.extract 0 n).size :=
        fun hn => (Piece.front n s.ahead).full hn (Nat.pos_of_ne_zero ha)
      rw [Rewindable.answer, hread]
      refine ⟨⟨fun hend => absurd (h.ahead_empty_iff.mpr hend) ha, fun _ => ⟨rfl, _, rfl, hpos⟩,
        fun bytes hb => ?_, fun e he => ?_⟩, htracks⟩
      · obtain rfl := Except.ok.inj hb
        exact ⟨rfl, htracks.within, hpiece⟩
      · cases he
  | save limit => exact ⟨⟨rfl, rfl, rfl⟩, h.save limit⟩
  | reset token =>
    have hcame : (s.reset token).2.came = s.came := by
      rw [came, reset_inner, came]
    refine ⟨⟨reset_inner token s, reset_ok token, reset_error token⟩, ?_⟩
    rw [Rewindable.answer, hcame]
    exact h.reset token

/-- Writing the calls down changes nothing for the window. -/
theorem answer_detach (r : Reader σ) (call : Call) (s : Rewindable (σ × List Intake)) :
    answer r call (detach s).1 =
      ((answer r.recorded call s).1, (detach (answer r.recorded call s).2).1) := by
  cases call with
  | read n =>
    have ha : (detach s).1.ahead = s.ahead := rfl
    obtain ⟨⟨reply, inner⟩, hr⟩ : ∃ out, r.read n s.inner.1 = out := ⟨_, rfl⟩
    have hbelow : r.read n (detach s).1.inner = (reply, inner) := hr
    by_cases hk : s.ahead.size = 0
    · cases reply with
      | ok piece =>
        simp only [answer, read, Reader.recorded, ha, hk, hr, hbelow, ne_eq, not_true_eq_false,
          if_false, detach_receive]
        rfl
      | error e =>
        simp only [answer, read, Reader.recorded, ha, hk, hr, hbelow, ne_eq, not_true_eq_false,
          if_false]
        rfl
    · simp only [answer, read, ha, hk, ne_eq, not_false_eq_true, if_true]
      rfl
  | save limit => rfl
  | reset token =>
    have h := reset_attach token (detach s).1 (detach s).2
    rw [show attach ((detach s).1, (detach s).2) = s from attach_detach s] at h
    simp only [answer, h]
    rfl

theorem after_detach (r : Reader σ) (calls : List Call) (s : Rewindable (σ × List Intake)) :
    after r calls (detach s).1 = (detach (after r.recorded calls s)).1 := by
  induction calls generalizing s with
  | nil => rfl
  | cons call calls ih =>
    have hstep := congrArg Prod.snd (answer_detach r call s)
    simp only [after, List.foldl_cons] at ih ⊢
    rw [hstep]
    exact ih _

/-- No run loses track. -/
theorem Tracks.run (r : Reader σ) (h : s.Tracks s.came) (calls : List Call) :
    (after r.recorded calls s).Tracks (after r.recorded calls s).came := by
  induction calls generalizing s with
  | nil => exact h
  | cons call calls ih => exact ih (h.answer r call).2

/-- After any run a reader that can be taken back stands within the bytes that came from below, and
what it is asked next shows just these (`Transparent`). -/
theorem rewindable_transparent (r : Reader σ) (inner : σ) (calls : List Call) (call : Call) :
    ∃ before later reply, after r.recorded calls (start (inner, [])) = before ∧
      answer r.recorded call before = (reply, later) ∧
      answer r call (after r calls (start inner)) = (reply, (detach later).1) ∧
      before.position ≤ before.came.size ∧ Transparent before later call reply := by
  have htracks := Tracks.run r (Tracks.start (inner, [])) calls
  refine ⟨_, _, _, rfl, rfl, ?_, htracks.within, (htracks.answer r call).1⟩
  rw [show start inner = (detach (start (inner, []))).1 from rfl, after_detach]
  exact answer_detach r call _

end Rewindable

end ImageCache
