import ImageCache.Proofs.Fetch.Search

namespace ImageCache

open Fetcher

variable {W R Wr S I E : Type}

/-- What a download comes to: it is turned away, its bytes are committed and read back, or it breaks
off. -/
inductive Procured (v : StoreView W R Wr) (r : Request) (w w' : W) :
    List (Deed R Wr S I) → Except (FetchFault E) (Option R) → Prop
  | conflict {deeds : List (Deed R Wr S I)} (held : v.held w r.fileKey) (plain : Plain deeds)
      (same : v.Same w w') : Procured v r w w' deeds (.ok none)
  | committed {deeds : List (Deed R Wr S I)} {program : Transfer} {talk : Talk} {entry : R}
      (free : ¬ v.held w r.fileKey) (marks : landmarks deeds = [.committed])
      (asks : asked deeds = [.transfer r.remoteUrl program]) (plays : program.Plays talk (.ok ()))
      (smooth : ∀ said ∈ talk, said.Smooth) (took : Deed.accepted deeds = talk.accepted)
      (closed : v.Closed r.fileKey (some talk.accepted) w w')
      (ahead : v.ahead talk.accepted (entry, w') talk.accepted) :
      Procured v r w w' deeds (.ok (some entry))
  | brokeOff {deeds : List (Deed R Wr S I)} {program : Transfer} {talk : Talk} {e : Fault}
      (free : ¬ v.held w r.fileKey) (marks : landmarks deeds = [.brokeOff])
      (asks : asked deeds = [.transfer r.remoteUrl program])
      (plays : program.Plays talk (.error e)) (smooth : ∀ said ∈ talk, said.Smooth)
      (same : v.Same w w') : Procured v r w w' deeds (.ok none)

section Downloading

variable {f : Fetcher W R Wr S I E} {v : StoreView W R Wr} {r : Request} {w w' : W}

theorem not_refused_of_smooth {talk : Talk} (h : ∀ said ∈ talk, said.Smooth) :
    Talk.refused talk = false := by
  rw [Talk.refused, List.any_eq_false]
  intro said hm
  obtain ⟨cue, reply⟩ := said
  have smooth := h _ hm
  cases cue with
  | write bytes =>
    cases reply with
    | ok n => exact Bool.false_ne_true
    | error e =>
      obtain ⟨n, hr, -⟩ := smooth
      cases hr
  | flush =>
    cases reply with
    | ok done => exact Bool.false_ne_true
    | error e => cases smooth
  | horizon => exact Bool.false_ne_true

/-- Whoever asks for a writer of a free key gets one, of a held key none. -/
theorem Dependable.stage_answers (h : Dependable f v) (hs : v.sound w) {key : String}
    (hk : IsDiskKey key) {reply : Except Fault (Option Wr)}
    (does : f.Does w (.stage key reply) w') :
    (v.held w key ∧ reply = .ok none ∧ v.Same w w') ∨
      (¬ v.held w key ∧ ∃ writer, reply = .ok (some writer) ∧ v.filling w' writer key .empty ∧
        v.Opened key w w') := by
  by_cases hh : v.held w key
  · exact .inl ⟨hh, h.refused hs hk does hh⟩
  · exact .inr ⟨hh, h.opened hs hk does hh⟩

/-- When a transfer has ended, the writer has what was said to be taken, and nothing else changed
but that the key is held. -/
theorem Sending.filled (h : Dependable f v) (hs : v.sound w) {writer last : Wr} {talk : Talk}
    {result : Except Fault Unit} {url key : String} {deeds : List (Deed R Wr S I)}
    (sending : Sending url writer deeds talk result last) (leads : f.Leads w deeds w')
    (filling : v.filling w writer key .empty) :
    (∃ program : Transfer, program.Plays talk result ∧ asked deeds = [.transfer url program]) ∧
      landmarks deeds = [] ∧ Deed.accepted deeds = talk.accepted ∧
      (∀ said ∈ talk, said.Smooth) ∧ v.Same w w' ∧ v.filling w' last key talk.accepted := by
  cases sending with
  | @intro program _ _ during _ plays conveys =>
    obtain ⟨w₁, htransfer, hconvey⟩ := leads
    have keeps := h.quiet hs rfl htransfer
    obtain ⟨smooth, same, filled⟩ :=
      h.conveys conveys hconvey keeps.sound (keeps.filling _ _ _ filling)
    rw [ByteArray.empty_append] at filled
    refine ⟨⟨program, plays, congrArg (_ :: ·) conveys.plain.2⟩, conveys.plain.1, ?_, smooth,
      keeps.toSame.trans same, filled⟩
    have nothing : Deed.taken (.transfer url program : Deed R Wr S I) = .empty := rfl
    rw [Deed.accepted_cons, nothing, ByteArray.empty_append, conveys.accepted_eq]

theorem Download.procured (h : Dependable f v) (hs : v.sound w) {deeds : List (Deed R Wr S I)}
    {outcome : Except (FetchFault E) (Option R)} (download : Download r deeds outcome)
    (leads : f.Leads w deeds w') : Procured v r w w' deeds outcome := by
  have hk := r.fileKey_isDiskKey
  cases download with
  | unstaged e =>
    obtain ⟨w₁, htold, w₂, hstage, -⟩ := leads
    have keeps := h.quiet hs rfl htold
    rcases h.stage_answers keeps.sound hk hstage with ⟨-, hr, -⟩ | ⟨-, writer, hr, -⟩
    · cases hr
    · cases hr
  | conflict =>
    obtain ⟨w₁, htold, w₂, hstage, hrest⟩ := leads
    have keeps := h.quiet hs rfl htold
    rcases h.stage_answers keeps.sound hk hstage with ⟨hh, -, same⟩ | ⟨-, writer, hr, -⟩
    · have after := h.quiet same.sound rfl (leads_single.mp hrest)
      exact .conflict ((keeps.held _ hk).mp hh) ⟨rfl, rfl⟩
        ((keeps.toSame.trans same).trans after.toSame)
    · cases hr
  | @sent writer last talk result sent ending outcome sending ends =>
    obtain ⟨w₁, htold, w₂, hstage, hrest⟩ := leads
    obtain ⟨w₃, hsent, hending⟩ := leads_append.mp hrest
    have keeps := h.quiet hs rfl htold
    rcases h.stage_answers keeps.sound hk hstage with ⟨-, hr, -⟩ | ⟨free, writer', hr, fresh, opens⟩
    · cases hr
    cases hr
    obtain ⟨⟨program, plays, asks⟩, marks, took, smooth, same, filled⟩ :=
      sending.filled h opens.sound hsent fresh
    have free : ¬ v.held w r.fileKey := fun hh => free ((keeps.held _ hk).mpr hh)
    have opened : v.Opened r.fileKey w w₃ := (keeps.toSame.opened opens).same same
    cases ends with
    | uncommitted e =>
      obtain ⟨w₄, hcommit, -⟩ := hending
      obtain ⟨hr, -⟩ := h.commit same.sound hk filled hcommit
      cases hr
    | unread e =>
      obtain ⟨w₄, hcommit, w₅, htold', w₆, hread, -⟩ := hending
      obtain ⟨-, closed⟩ := h.commit same.sound hk filled hcommit
      have after := h.quiet closed.sound rfl htold'
      rcases h.read_answers after.sound hk hread with ⟨-, hr⟩ | ⟨bytes, entry, -, hr, -⟩
      · cases hr
      · cases hr
    | committed found =>
      obtain ⟨w₄, hcommit, w₅, htold', hread⟩ := hending
      have hread := leads_single.mp hread
      obtain ⟨-, closed⟩ := h.commit same.sound hk filled hcommit
      have after := h.quiet closed.sound rfl htold'
      have there : v.entry w₅ r.fileKey = some talk.accepted :=
        (after.entry _ hk).trans closed.own
      obtain ⟨entry, hr, ahead⟩ := h.found after.sound hk hread there
      cases hr
      have last := after.trans (h.quiet after.sound rfl hread)
      have closed := (opened.closed closed).same hk last.toSame
      refine .committed free ?_ ?_ plays smooth ?_ closed ahead
      · change landmarks (sent ++ _) = _
        exact landmarks_joined marks rfl
      · change asked (sent ++ _) = _
        exact asked_joined asks rfl
      · rw [Deed.accepted_cons, Deed.accepted_cons, Deed.accepted_append, took]
        simp [Deed.accepted, Deed.taken]
    | refused e reply refused =>
      -- Smooth talk is never refused anything, so the fault is not one of the store.
      rw [not_refused_of_smooth smooth] at refused
      cases refused
    | failed e reply _ =>
      obtain ⟨w₄, habort, hrest⟩ := hending
      obtain ⟨rfl, closed⟩ := h.abort same.sound hk filled habort
      have after := h.quiet closed.sound rfl (leads_single.mp hrest)
      have back := opened.closed closed
      rw [opened.entry _ hk] at back
      refine .brokeOff free ?_ ?_ plays smooth ((back.unchanged free).trans after.toSame)
      · change landmarks (sent ++ _) = _
        exact landmarks_joined marks rfl
      · change asked (sent ++ _) = _
        exact asked_joined asks rfl

end Downloading

end ImageCache
