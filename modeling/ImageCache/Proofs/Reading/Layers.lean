import ImageCache.Proofs.Reading.Delivery
import ImageCache.Reading.Buffered
import ImageCache.Reading.Rewindable

namespace ImageCache

variable {σ τ : Type} {has : σ → ByteArray → Prop}

theorem Reader.Delivers.remap {r : Reader σ} (h : r.Delivers has) {into : τ → σ} {back : σ → τ}
    (lawful : ∀ s, into (back s) = s) :
    (r.remap into back).Delivers fun t ahead => has (into t) ahead where
  read := by
    intro t ahead ht n
    obtain ⟨piece, rest, s', hr, hp, hs'⟩ := h.read ht n
    refine ⟨piece, rest, back s', ?_, hp, (lawful s').symm ▸ hs'⟩
    simp only [Reader.remap, hr]
  bound ht := h.bound ht

theorem SeekableReader.Replays.remap {r : SeekableReader σ} {whole : ByteArray}
    (h : r.Replays whole has) {into : τ → σ} {back : σ → τ} (lawful : ∀ s, into (back s) = s) :
    (r.remap into back).Replays whole fun t ahead => has (into t) ahead where
  toDelivers := h.toDelivers.remap lawful
  rewind := by
    intro t ahead ht
    obtain ⟨s', hr, hs'⟩ := h.rewind ht
    refine ⟨back s', ?_, (lawful s').symm ▸ hs'⟩
    simp only [SeekableReader.remap, hr]

theorem SeekableReader.run_seekable {α : Type} (r : SeekableReader σ) (p : Reading α) (s : σ) :
    r.run p.seekable s = r.toReader.run p s := by
  induction p generalizing s with
  | done a => rfl
  | ask q next ih => exact ih _ _

namespace Buffered

def Ahead (has : σ → ByteArray → Prop) (s : Buffered σ) (ahead : ByteArray) : Prop :=
  ∃ rest, has s.inner rest ∧ ahead = s.ahead ++ rest

theorem attach_detach {H W : Type} (s : Buffered (H × W)) : attach (detach s) = s := rfl

theorem delivers {r : SeekableReader σ} (h : r.toReader.Delivers has) :
    (reader r).toReader.Delivers (Ahead has) where
  read := by
    rintro ⟨inner, kept⟩ _ ⟨rest, hs, rfl⟩ n
    by_cases hk : kept.size = 0
    · obtain rfl : kept = .empty := ByteArray.size_eq_zero_iff.mp hk
      rw [ByteArray.empty_append]
      by_cases hn : blockSize ≤ n
      · obtain ⟨piece, rest', inner', hr, hp, hs'⟩ := h.read hs n
        refine ⟨piece, rest', ⟨inner', .empty⟩, ?_, hp, rest', hs', ByteArray.empty_append.symm⟩
        simp [reader, read, hn, hr]
      · obtain ⟨block, rest', inner', hr, hp, hs'⟩ := h.read hs blockSize
        -- A whole block comes from below, and only its front is handed out.
        have hblock := Piece.front n block
        refine ⟨block.extract 0 n, _, ⟨inner', block.extract n block.size⟩, ?_, ?_, rest', hs', rfl⟩
        · simp [reader, read, hn, hr]
        · refine ⟨?_, hblock.short, fun hn hrest => hblock.full hn (hp.full (by decide) hrest)⟩
          rw [← ByteArray.append_assoc, ← hblock.split, ← hp.split]
    · refine ⟨kept.extract 0 n, _, ⟨inner, kept.extract n kept.size⟩, ?_,
        .front_append n (Nat.pos_of_ne_zero hk) rest, rest, hs, rfl⟩
      simp [reader, read, hk]
  bound := by
    rintro ⟨inner, kept⟩ _ ⟨rest, hs, rfl⟩
    rw [ByteArray.size_append]
    exact Nat.add_le_add_left (h.bound hs) _

theorem replays {r : SeekableReader σ} {whole : ByteArray} (h : r.Replays whole has) :
    (reader r).Replays whole (Ahead has) where
  toDelivers := delivers h.toDelivers
  rewind := by
    rintro ⟨inner, kept⟩ _ ⟨rest, hs, -⟩
    obtain ⟨inner', hr, hs'⟩ := h.rewind hs
    refine ⟨start inner', ?_, whole, hs', ByteArray.empty_append.symm⟩
    simp only [reader, rewind, hr]

theorem ahead_start {inner : σ} {ahead : ByteArray} (h : has inner ahead) :
    Ahead has (start inner) ahead :=
  ⟨ahead, h, ByteArray.empty_append.symm⟩

end Buffered

namespace Rewindable

/-- First come the kept bytes that were handed out before, then what the reader below has. As long
as the mark holds, all bytes from the first on are kept. -/
def Ahead (has : σ → ByteArray → Prop) (whole : ByteArray) (s : Rewindable σ) (ahead : ByteArray) :
    Prop :=
  ∃ rest, has s.inner rest ∧ ahead = s.ahead ++ rest ∧
    ∀ m, s.mark = some m → m = 0 ∧ s.position ≤ s.history.size ∧ s.history ++ rest = whole

section

variable {H W : Type}

theorem attach_detach (s : Rewindable (H × W)) : attach (detach s) = s := rfl

theorem detach_receive (s : Rewindable (H × W)) (bytes : ByteArray) :
    detach (s.receive bytes) = ((detach s).1.receive bytes, (detach s).2) := by
  obtain ⟨inner, position, mark, limit, history⟩ := s
  cases mark with
  | none => rfl
  | some m =>
    by_cases hfit : history.size + bytes.size ≤ limit
    · simp [receive, detach, hfit]
    · simp [receive, detach, hfit]

theorem reset_attach (token : Nat) (s : Rewindable H) (w : W) :
    (attach (s, w)).reset token = ((s.reset token).1, attach ((s.reset token).2, w)) := by
  obtain ⟨inner, position, mark, limit, history⟩ := s
  cases mark with
  | none => rfl
  | some m =>
    by_cases hin : m ≤ token ∧ token ≤ m + history.size
    · simp [reset, attach, hin]
    · simp [reset, attach, hin]

end

variable {whole ahead : ByteArray}

@[simp]
theorem receive_inner (s : Rewindable σ) (piece : ByteArray) :
    (s.receive piece).inner = s.inner := by
  unfold receive
  split
  · split <;> rfl
  · rfl

@[simp]
theorem receive_position (s : Rewindable σ) (piece : ByteArray) :
    (s.receive piece).position = s.position + piece.size := by
  unfold receive
  split
  · split <;> rfl
  · rfl

@[simp]
theorem reset_inner (token : Nat) (s : Rewindable σ) : (s.reset token).2.inner = s.inner := by
  unfold reset
  split
  · split <;> rfl
  · rfl

theorem reset_ok (token : Nat) {s : Rewindable σ} (h : (s.reset token).1 = .ok ()) :
    (s.reset token).2.position = token := by
  unfold reset at h ⊢
  split at h
  · split at h
    · simp only [*, and_self, if_true]
    · cases h
  · cases h

/-- Nothing changes where there is no way back. -/
theorem reset_error (token : Nat) {s : Rewindable σ} (e : Fault)
    (h : (s.reset token).1 = .error e) : (s.reset token).2 = s := by
  unfold reset at h ⊢
  split at h
  · split at h
    · cases h
    · simp only [*, if_false]
  · rfl

/-- Without a mark nothing is kept. -/
theorem receive_unmarked {s : Rewindable σ} (hm : s.mark = none) (piece : ByteArray) :
    s.receive piece = { s with position := s.position + piece.size } := by
  simp [receive, hm]

/-- Bytes that fit into the window are kept. -/
theorem receive_fits {s : Rewindable σ} {m : Nat} {piece : ByteArray} (hm : s.mark = some m)
    (hfit : s.history.size + piece.size ≤ s.limit) :
    s.receive piece =
      { s with position := s.position + piece.size, history := s.history ++ piece } := by
  simp [receive, hm, hfit]

/-- Bytes beyond the window cost the mark. -/
theorem receive_spills {s : Rewindable σ} {m : Nat} {piece : ByteArray} (hm : s.mark = some m)
    (hfit : ¬ s.history.size + piece.size ≤ s.limit) :
    s.receive piece =
      { s with position := s.position + piece.size, mark := none, history := .empty } := by
  simp [receive, hm, hfit]

/-- What is handed out of the kept bytes lies no longer ahead. -/
theorem ahead_moved (s : Rewindable σ) (h : ∀ m, s.mark = some m → m = 0) (n : Nat) :
    ({ s with position := s.position + (s.ahead.extract 0 n).size } : Rewindable σ).ahead =
      s.ahead.extract n s.ahead.size := by
  obtain ⟨inner, position, mark, limit, history⟩ := s
  cases mark with
  | none => exact (extract_past (Nat.zero_le n)).symm
  | some m =>
    obtain rfl := h m rfl
    simp only [Rewindable.ahead, Nat.sub_zero]
    rw [← extract_from, extract_behind]

/-- Bytes that come from below are kept, or there is no way back any more. -/
theorem ahead_receive {s : Rewindable σ} {inner : σ} {piece rest : ByteArray} (hs : has inner rest)
    (hk : s.ahead.size = 0)
    (hm : ∀ m, s.mark = some m →
      m = 0 ∧ s.position ≤ s.history.size ∧ s.history ++ (piece ++ rest) = whole) :
    Ahead has whole (({ s with inner := inner } : Rewindable σ).receive piece) rest := by
  obtain ⟨below, position, mark, limit, history⟩ := s
  cases mark with
  | none => exact ⟨rest, hs, ByteArray.empty_append.symm, nofun⟩
  | some m =>
    obtain ⟨rfl, hp, hw⟩ := hm m rfl
    simp only [Rewindable.ahead, Nat.sub_zero, ByteArray.size_extract] at hk hp hw
    -- Within the limit the piece joins the history; beyond it the mark is given up.
    by_cases hfit : history.size + piece.size ≤ limit
    · rw [receive_fits rfl hfit]
      refine ⟨rest, hs, ?_, fun m h => ⟨(Option.some.inj h).symm, ?_, ?_⟩⟩
      · have hend : (history ++ piece).size ≤ position + piece.size := by
          rw [ByteArray.size_append]
          omega
        simp only [Rewindable.ahead, Nat.sub_zero]
        rw [extract_past hend, ByteArray.empty_append]
      · rw [ByteArray.size_append]
        exact Nat.add_le_add_right hp _
      · rw [ByteArray.append_assoc, hw]
    · rw [receive_spills rfl hfit]
      exact ⟨rest, hs, ByteArray.empty_append.symm, nofun⟩

theorem delivers {r : Reader σ} (h : r.Delivers has) :
    (reader r).Delivers (Ahead has whole) where
  read := by
    rintro s _ ⟨rest, hs, rfl, hm⟩ n
    by_cases hk : s.ahead.size = 0
    · obtain ⟨piece, rest', inner', hr, hp, hs'⟩ := h.read hs n
      rw [ByteArray.size_eq_zero_iff.mp hk, ByteArray.empty_append]
      refine ⟨piece, rest', ({ s with inner := inner' } : Rewindable σ).receive piece, ?_, hp,
        ahead_receive hs' hk (hp.split ▸ hm)⟩
      simp [reader, read, hk, hr]
    · refine ⟨s.ahead.extract 0 n, _,
        { s with position := s.position + (s.ahead.extract 0 n).size }, ?_,
        .front_append n (Nat.pos_of_ne_zero hk) rest, rest, hs, ?_, ?_⟩
      · simp [reader, read, hk]
      · rw [ahead_moved s fun m h => (hm m h).1]
      · intro m h
        obtain ⟨rfl, hp, hw⟩ := hm m h
        refine ⟨rfl, ?_, hw⟩
        -- No more is handed out than was kept.
        have hahead : s.ahead = s.history.extract s.position s.history.size := by
          simp only [Rewindable.ahead, show s.mark = some 0 from h, Nat.sub_zero]
        rw [hahead]
        simp only [ByteArray.size_extract]
        omega
  bound := by
    rintro s _ ⟨rest, hs, rfl, -⟩
    rw [ByteArray.size_append]
    exact Nat.add_le_add_left (h.bound hs) _

/-- Marked at its start, a reader keeps everything from there on. -/
theorem ahead_marked {inner : σ} (h : has inner whole) (limit : Nat) :
    Ahead has whole ((start inner).savePosition limit).2 whole := by
  refine ⟨whole, h, ByteArray.empty_append.symm, fun m hm => ⟨(Option.some.inj hm).symm, ?_⟩⟩
  exact ⟨Nat.zero_le _, ByteArray.empty_append⟩

/-- Going back to the start leads to the whole again, or the mark is lost. -/
theorem reset_start {s : Rewindable σ} (h : Ahead has whole s ahead) :
    (∃ s', s.reset 0 = (.ok (), s') ∧ Ahead has whole s' whole) ∨
      s.reset 0 = (.error .outsideWindow, s) := by
  obtain ⟨rest, hs, -, hm⟩ := h
  obtain ⟨inner, position, mark, limit, history⟩ := s
  cases mark with
  | none => exact .inr rfl
  | some m =>
    obtain ⟨rfl, -, hw⟩ := hm m rfl
    refine .inl ⟨⟨inner, 0, some 0, limit, history⟩, by simp [reset], rest, hs, ?_,
      fun m h => ⟨(Option.some.inj h).symm, Nat.zero_le _, hw⟩⟩
    simp only [Rewindable.ahead, Nat.sub_self]
    rw [ByteArray.extract_zero_size, hw]

end Rewindable

end ImageCache
