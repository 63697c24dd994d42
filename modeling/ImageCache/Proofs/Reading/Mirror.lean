import ImageCache.Proofs.Reading.Layers

namespace ImageCache

variable {α σ τ : Type}

/-- As long as their states are alike, the two readers give the same replies. -/
structure Reader.Mirrors (r : Reader σ) (r' : Reader τ) (like : σ → τ → Prop) : Prop where
  read : ∀ {s t}, like s t → ∀ n, ∃ reply s' t',
    r.read n s = (reply, s') ∧ r'.read n t = (reply, t') ∧ like s' t'
  horizon : ∀ {s t}, like s t → r.horizon s = r'.horizon t

structure SeekableReader.Mirrors (r : SeekableReader σ) (r' : SeekableReader τ)
    (like : σ → τ → Prop) : Prop extends Reader.Mirrors r.toReader r'.toReader like where
  rewind : ∀ {s t}, like s t → ∃ reply s' t',
    r.rewind s = (reply, s') ∧ r'.rewind t = (reply, t') ∧ like s' t'

namespace Reader.Mirrors

variable {r : Reader σ} {r' : Reader τ} {like : σ → τ → Prop} {s : σ} {t : τ}

theorem answer (h : r.Mirrors r' like) (hl : like s t) (q : ReadQuery) : ∃ reply s' t',
    r.answer q s = (reply, s') ∧ r'.answer q t = (reply, t') ∧ like s' t' := by
  match q with
  | .upTo n => exact h.read hl n
  | .horizon =>
    refine ⟨r.horizon s, s, t, rfl, ?_, hl⟩
    rw [h.horizon hl]
    rfl

/-- A program cannot tell a reader from its mirror, and leaves both in states that are alike. -/
theorem run (h : r.Mirrors r' like) (p : Reading α) (hl : like s t) : ∃ a s' t',
    r.run p s = (a, s') ∧ r'.run p t = (a, t') ∧ like s' t' := by
  induction p generalizing s t with
  | done a => exact ⟨a, s, t, rfl, rfl, hl⟩
  | ask q next ih =>
    obtain ⟨reply, s', t', hr, hr', hl'⟩ := h.answer hl q
    simp only [Reader.run, Dialogue.run_ask, hr, hr']
    exact ih reply hl'

theorem remap (h : r.Mirrors r' like) {σ' : Type} {into : σ' → σ} {back : σ → σ'}
    (lawful : ∀ s, into (back s) = s) :
    (r.remap into back).Mirrors r' fun s t => like (into s) t where
  read := by
    intro s t hl n
    obtain ⟨reply, s', t', hr, hr', hl'⟩ := h.read hl n
    refine ⟨reply, back s', t', ?_, hr', (lawful s').symm ▸ hl'⟩
    simp only [Reader.remap, hr]
  horizon hl := h.horizon hl

end Reader.Mirrors

namespace SeekableReader.Mirrors

variable {r : SeekableReader σ} {r' : SeekableReader τ} {like : σ → τ → Prop} {s : σ} {t : τ}

theorem answer (h : r.Mirrors r' like) (hl : like s t) (q : SeekQuery) : ∃ reply s' t',
    r.answer q s = (reply, s') ∧ r'.answer q t = (reply, t') ∧ like s' t' := by
  match q with
  | .plain q => exact h.toMirrors.answer hl q
  | .rewind => exact h.rewind hl

/-- A program cannot tell a reader from its mirror. -/
theorem run (h : r.Mirrors r' like) (p : SeekReading α) (hl : like s t) :
    (r.run p s).1 = (r'.run p t).1 := by
  induction p generalizing s t with
  | done a => rfl
  | ask q next ih =>
    obtain ⟨reply, s', t', hr, hr', hl'⟩ := h.answer hl q
    rw [SeekableReader.run, SeekableReader.run, Dialogue.run_ask, Dialogue.run_ask, hr, hr']
    exact ih reply hl'

theorem remap (h : r.Mirrors r' like) {σ' : Type} {into : σ' → σ} {back : σ → σ'}
    (lawful : ∀ s, into (back s) = s) :
    (r.remap into back).Mirrors r' fun s t => like (into s) t where
  toMirrors := h.toMirrors.remap lawful
  rewind := by
    intro s t hl
    obtain ⟨reply, s', t', hr, hr', hl'⟩ := h.rewind hl
    refine ⟨reply, back s', t', ?_, hr', (lawful s').symm ▸ hl'⟩
    simp only [SeekableReader.remap, hr]

theorem buffered (h : r.Mirrors r' like) :
    (Buffered.reader r).Mirrors (Buffered.reader r')
      fun s t => like s.inner t.inner ∧ s.ahead = t.ahead where
  read := by
    rintro ⟨inner, kept⟩ ⟨inner', _⟩ ⟨hl, rfl⟩ n
    by_cases hk : kept.size = 0
    · by_cases hn : Buffered.blockSize ≤ n
      · obtain ⟨reply, s', t', hr, hr', hl'⟩ := h.read hl n
        refine ⟨reply, ⟨s', kept⟩, ⟨t', kept⟩, ?_, ?_, hl', rfl⟩
        · simp [Buffered.reader, Buffered.read, hk, hn, hr]
        · simp [Buffered.reader, Buffered.read, hk, hn, hr']
      · obtain ⟨reply, s', t', hr, hr', hl'⟩ := h.read hl Buffered.blockSize
        cases reply with
        | ok block =>
          refine ⟨.ok (block.extract 0 n), ⟨s', block.extract n block.size⟩,
            ⟨t', block.extract n block.size⟩, ?_, ?_, hl', rfl⟩
          · simp [Buffered.reader, Buffered.read, hk, hn, hr]
          · simp [Buffered.reader, Buffered.read, hk, hn, hr']
        | error e =>
          refine ⟨.error e, ⟨s', kept⟩, ⟨t', kept⟩, ?_, ?_, hl', rfl⟩
          · simp [Buffered.reader, Buffered.read, hk, hn, hr]
          · simp [Buffered.reader, Buffered.read, hk, hn, hr']
    · refine ⟨.ok (kept.extract 0 n), ⟨inner, kept.extract n kept.size⟩,
        ⟨inner', kept.extract n kept.size⟩, ?_, ?_, hl, rfl⟩
      · simp [Buffered.reader, Buffered.read, hk]
      · simp [Buffered.reader, Buffered.read, hk]
  horizon := by
    rintro ⟨inner, kept⟩ ⟨inner', _⟩ ⟨hl, rfl⟩
    exact congrArg (kept.size + ·) (h.horizon hl)
  rewind := by
    rintro ⟨inner, kept⟩ ⟨inner', _⟩ ⟨hl, rfl⟩
    obtain ⟨reply, s', t', hr, hr', hl'⟩ := h.rewind hl
    cases reply with
    | ok _ =>
      refine ⟨.ok (), .start s', .start t', ?_, ?_, hl', rfl⟩
      · simp [Buffered.reader, Buffered.rewind, hr]
      · simp [Buffered.reader, Buffered.rewind, hr']
    | error e =>
      refine ⟨.error e, ⟨s', kept⟩, ⟨t', kept⟩, ?_, ?_, hl', rfl⟩
      · simp [Buffered.reader, Buffered.rewind, hr]
      · simp [Buffered.reader, Buffered.rewind, hr']

end SeekableReader.Mirrors

/-- The reader whose state is what lies ahead of these bytes. It hands out all that is asked for. -/
def SeekableReader.ofBytes (whole : ByteArray) : SeekableReader ByteArray where
  read n ahead := (.ok (ahead.extract 0 n), ahead.extract n ahead.size)
  horizon ahead := ahead.size
  rewind _ := (.ok (), whole)

theorem SeekableReader.ofBytes_replays (whole : ByteArray) :
    (SeekableReader.ofBytes whole).Replays whole Eq where
  read := by
    intro s ahead hs n
    subst hs
    exact ⟨_, _, _, rfl, .front n s, rfl⟩
  bound hs := Nat.le_of_eq (congrArg ByteArray.size hs.symm)
  rewind _ := ⟨whole, rfl, rfl⟩

/-- A reader that mirrors the bytes at hand replays them. -/
theorem SeekableReader.Mirrors.replays {r : SeekableReader σ} {whole : ByteArray}
    {has : σ → ByteArray → Prop} (h : r.Mirrors (.ofBytes whole) has) : r.Replays whole has where
  read := by
    intro s ahead hs n
    obtain ⟨reply, s', t', hr, ho, hs'⟩ := h.read hs n
    obtain ⟨rfl, rfl⟩ := Prod.mk.inj ho
    exact ⟨_, _, s', hr, .front n ahead, hs'⟩
  bound hs := Nat.le_of_eq (h.horizon hs).symm
  rewind := by
    intro s ahead hs
    obtain ⟨reply, s', t', hr, ho, hs'⟩ := h.rewind hs
    obtain ⟨rfl, rfl⟩ := Prod.mk.inj ho
    exact ⟨s', hr, hs'⟩

end ImageCache
