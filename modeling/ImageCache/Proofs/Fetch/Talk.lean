import ImageCache.Proofs.Fetch.Record

namespace ImageCache

/-- A dialogue ended so after these queries had been answered in this way. -/
inductive Dialogue.Plays {Query : Type} {Reply : Query → Type} {α : Type} :
    Dialogue Query Reply α → List ((q : Query) × Reply q) → α → Prop
  | done (a : α) : Plays (.done a) [] a
  | ask (q : Query) (next : Reply q → Dialogue Query Reply α) (reply : Reply q)
      {talk : List ((q : Query) × Reply q)} {a : α} (h : Plays (next reply) talk a) :
      Plays (.ask q next) (⟨q, reply⟩ :: talk) a

/-- A composition is played in two parts. -/
theorem Dialogue.plays_bind {Query : Type} {Reply : Query → Type} {α β : Type}
    {p : Dialogue Query Reply α} {f : α → Dialogue Query Reply β}
    {talk : List ((q : Query) × Reply q)} {b : β} (h : (p >>= f).Plays talk b) :
    ∃ first second a, talk = first ++ second ∧ p.Plays first a ∧ (f a).Plays second b := by
  change (p.bind f).Plays talk b at h
  induction p generalizing talk with
  | done a => exact ⟨[], talk, a, rfl, .done a, h⟩
  | ask q next ih =>
    cases h with
    | ask _ _ reply rest =>
      obtain ⟨first, second, a, rfl, hp, hf⟩ := ih reply rest
      exact ⟨_ :: first, second, a, rfl, .ask q next reply hp, hf⟩

section Runs

variable {Query : Type} {Reply : Query → Type} {α β σ : Type}
  (answer : (q : Query) → σ → Reply q × σ)

/-- What the program asks when it is run from this state, with the replies. -/
def Dialogue.talk : Dialogue Query Reply α → σ → List ((q : Query) × Reply q)
  | .done _, _ => []
  | .ask q next, s => ⟨q, (answer q s).1⟩ :: (next (answer q s).1).talk (answer q s).2

theorem Dialogue.plays_talk (p : Dialogue Query Reply α) (s : σ) :
    p.Plays (p.talk answer s) (p.run answer s).1 := by
  induction p generalizing s with
  | done a => exact .done a
  | ask q next ih => exact .ask q next _ (ih _ _)

theorem Dialogue.talk_bind (p : Dialogue Query Reply α) (f : α → Dialogue Query Reply β) (s : σ) :
    (p >>= f).talk answer s =
      p.talk answer s ++ (f (p.run answer s).1).talk answer (p.run answer s).2 := by
  change (p.bind f).talk answer s = _
  induction p generalizing s with
  | done a => rfl
  | ask q next ih => exact congrArg (List.cons _) (ih _ _)

end Runs

abbrev Exchange := (q : SinkQuery) × q.Reply

namespace Exchange

def taken : Exchange → ByteArray
  | ⟨.write bytes, .ok n⟩ => bytes.extract 0 n
  | _ => ByteArray.empty

def count : Exchange → Nat
  | ⟨.write _, .ok n⟩ => n
  | _ => 0

def fails : Exchange → Bool
  | ⟨.write _, .error _⟩ => true
  | ⟨.flush, .error _⟩ => true
  | _ => false

/-- No more bytes were reported as taken than were offered. -/
def Honest : Exchange → Prop
  | ⟨.write bytes, .ok n⟩ => n ≤ bytes.size
  | _ => True

theorem Honest.taken_size {said : Exchange} (h : Honest said) : (taken said).size = count said := by
  match said, h with
  | ⟨.write bytes, .ok n⟩, h =>
    have hn : n ≤ bytes.size := h
    simp [taken, count]
    omega
  | ⟨.write _, .error _⟩, _ => rfl
  | ⟨.flush, _⟩, _ => rfl
  | ⟨.horizon, _⟩, _ => rfl

end Exchange

abbrev Talk := List Exchange

/-- What a writing program and the sink say to each other in a run. -/
def Sink.talk {σ α : Type} (k : Sink σ) (p : Writing α) (s : σ) : Talk := Dialogue.talk k.answer p s

namespace Talk

def accepted (talk : Talk) : ByteArray :=
  talk.foldr (fun said rest => said.taken ++ rest) ByteArray.empty

def total (talk : Talk) : Nat := talk.foldr (fun said rest => said.count + rest) 0

def refused (talk : Talk) : Bool := talk.any Exchange.fails

theorem accepted_size {talk : Talk} (h : ∀ said ∈ talk, said.Honest) :
    (accepted talk).size = total talk := by
  induction talk with
  | nil => rfl
  | cons said rest ih =>
    have hs := (h said List.mem_cons_self).taken_size
    have hr := ih fun other hm => h other (List.mem_cons_of_mem _ hm)
    simp only [accepted, List.foldr_cons, ByteArray.size_append, total] at hr ⊢
    omega

end Talk

/-- A watched sink answers as the sink below does, and keeps count. -/
theorem Watched.sink_answer {σ : Type} {k : Sink σ} {q : SinkQuery} {s next : σ} {reply : q.Reply}
    (n : Nat) (failed : Bool) (h : k.answer q s = (reply, next)) :
    (Watched.sink k).answer q ⟨s, n, failed⟩ =
      (reply, ⟨next, n + Exchange.count ⟨q, reply⟩, failed || Exchange.fails ⟨q, reply⟩⟩) := by
  cases q with
  | write bytes =>
    change k.write bytes s = (reply, next) at h
    cases reply with
    | ok taken => simp [Sink.answer, sink, write, h, Exchange.count, Exchange.fails]
    | error e => simp [Sink.answer, sink, write, h, Exchange.count, Exchange.fails]
  | flush =>
    change k.flush s = (reply, next) at h
    cases reply with
    | ok _ => simp [Sink.answer, sink, flush, h, Exchange.count, Exchange.fails]
    | error e => simp [Sink.answer, sink, flush, h, Exchange.count, Exchange.fails]
  | horizon =>
    cases h
    simp [Sink.answer, sink, Exchange.count, Exchange.fails]

variable {W R Wr S I E α : Type}

namespace Deed

def taken : Deed R Wr S I → ByteArray
  | .offer _ bytes (.ok n) _ => bytes.extract 0 n
  | _ => ByteArray.empty

def accepted (deeds : List (Deed R Wr S I)) : ByteArray :=
  deeds.foldr (fun deed rest => deed.taken ++ rest) ByteArray.empty

theorem accepted_cons (deed : Deed R Wr S I) (rest : List (Deed R Wr S I)) :
    accepted (deed :: rest) = deed.taken ++ accepted rest := rfl

theorem accepted_append (first second : List (Deed R Wr S I)) :
    accepted (first ++ second) = accepted first ++ accepted second := by
  induction first with
  | nil => simp [accepted]
  | cons deed rest ih =>
    rw [List.cons_append, accepted_cons, accepted_cons, ih, ByteArray.append_assoc]

end Deed

/-- What the writer of a fetcher notices of an exchange. The horizon is asked behind its back. -/
inductive Hears : Wr → Exchange → List (Deed R Wr S I) → Wr → Prop
  | write (writer : Wr) (bytes : ByteArray) (reply : Except Fault Nat) (next : Wr) :
      Hears writer ⟨.write bytes, reply⟩ [.offer writer bytes reply next] next
  | flush (writer : Wr) (reply : Except Fault Unit) (next : Wr) :
      Hears writer ⟨.flush, reply⟩ [.flush writer reply next] next
  | horizon (writer : Wr) (n : Nat) : Hears writer ⟨.horizon, n⟩ [] writer

/-- The writer hears a talk from its first exchange to its last, each on the handle that the one
before it left. -/
inductive Conveys : Wr → Talk → List (Deed R Wr S I) → Wr → Prop
  | nil (writer : Wr) : Conveys writer [] [] writer
  | cons {writer next last : Wr} {said : Exchange} {talk : Talk}
      {deeds more : List (Deed R Wr S I)} (first : Hears writer said deeds next)
      (rest : Conveys next talk more last) : Conveys writer (said :: talk) (deeds ++ more) last

theorem Hears.accepted_eq {writer next : Wr} {said : Exchange} {deeds : List (Deed R Wr S I)}
    (h : Hears writer said deeds next) : Deed.accepted deeds = said.taken := by
  cases h with
  | write bytes reply =>
    cases reply with
    | ok n => simp [Deed.accepted, Deed.taken, Exchange.taken]
    | error e => simp [Deed.accepted, Deed.taken, Exchange.taken]
  | flush reply => simp [Deed.accepted, Deed.taken, Exchange.taken]
  | horizon n => rfl

/-- The bytes that the writer took are those that the source was told it took. -/
theorem Conveys.accepted_eq {writer last : Wr} {talk : Talk} {deeds : List (Deed R Wr S I)}
    (h : Conveys writer talk deeds last) : Deed.accepted deeds = Talk.accepted talk := by
  induction h with
  | nil => rfl
  | cons first rest ih =>
    rw [Deed.accepted_append, first.accepted_eq, ih]
    rfl

namespace Fetcher

theorem recorded_writer {f : Fetcher W R Wr S I E} {q : SinkQuery} {writer next : Wr} {w after : W}
    {reply : q.Reply} (record : List (Deed R Wr S I))
    (h : f.store.writer.answer q (writer, w) = (reply, (next, after))) :
    ∃ deeds, f.recorded.store.writer.answer q (writer, (w, record)) =
        (reply, (next, (after, record ++ deeds))) ∧
      f.Leads w deeds after ∧ Hears writer ⟨q, reply⟩ deeds next := by
  cases q with
  | write bytes =>
    change f.store.writer.write bytes (writer, w) = _ at h
    refine ⟨[.offer writer bytes reply next], ?_, leads_single.mpr h,
      .write writer bytes reply next⟩
    simp [Sink.answer, recorded, ByteStore.recorded, notedWith, h]
  | flush =>
    change f.store.writer.flush (writer, w) = _ at h
    refine ⟨[.flush writer reply next], ?_, leads_single.mpr h, .flush writer reply next⟩
    simp [Sink.answer, recorded, ByteStore.recorded, notedWith, h]
  | horizon =>
    cases h
    refine ⟨[], ?_, leads_nil f w, .horizon writer _⟩
    simp [Sink.answer, recorded, ByteStore.recorded]

/-- A transfer run on the writer of a fetcher, the same watched, and the same recorded. -/
theorem watched_run (f : Fetcher W R Wr S I E) (p : Writing α) (writer : Wr) (w : W)
    (record : List (Deed R Wr S I)) (n : Nat) (failed : Bool) :
    ∃ deeds result last after, f.store.writer.run p (writer, w) = (result, (last, after)) ∧
      (Watched.sink f.store.writer).run p ⟨(writer, w), n, failed⟩ =
        (result, ⟨(last, after), n + Talk.total (f.store.writer.talk p (writer, w)),
          failed || Talk.refused (f.store.writer.talk p (writer, w))⟩) ∧
      (Watched.sink f.recorded.store.writer).run p ⟨(writer, (w, record)), n, failed⟩ =
        (result, ⟨(last, (after, record ++ deeds)),
          n + Talk.total (f.store.writer.talk p (writer, w)),
          failed || Talk.refused (f.store.writer.talk p (writer, w))⟩) ∧
      f.Leads w deeds after ∧ Conveys writer (f.store.writer.talk p (writer, w)) deeds last := by
  -- What is left of the program starts from the handle, the record and the count so far.
  induction p generalizing writer w record n failed with
  | done a =>
    refine ⟨[], a, writer, w, rfl, ?_, ?_, leads_nil f w, .nil writer⟩
    · simp [Sink.run, Sink.talk, Dialogue.talk, Talk.total, Talk.refused]
    · simp [Sink.run, Sink.talk, Dialogue.talk, Talk.total, Talk.refused]
  | ask q next ih =>
    obtain ⟨⟨reply, handle, middle⟩, ha⟩ : ∃ out, f.store.writer.answer q (writer, w) = out :=
      ⟨_, rfl⟩
    obtain ⟨deeds, hd, hl, hh⟩ := recorded_writer record ha
    obtain ⟨more, result, last, after, hp, hs, hr, hl', hc⟩ :=
      ih reply handle middle (record ++ deeds) (n + Exchange.count ⟨q, reply⟩)
        (failed || Exchange.fails ⟨q, reply⟩)
    have ht : f.store.writer.talk (.ask q next) (writer, w) =
        ⟨q, reply⟩ :: f.store.writer.talk (next reply) (handle, middle) := by
      rw [Sink.talk, Dialogue.talk, ha]
      rfl
    rw [ht]
    refine ⟨deeds ++ more, result, last, after, ?_, ?_, ?_, leads_append.mpr ⟨middle, hl, hl'⟩,
      .cons hh hc⟩
    · rw [Sink.run, Dialogue.run_ask, ha]
      exact hp
    · rw [Sink.run, Dialogue.run_ask, Watched.sink_answer n failed ha]
      simpa [Sink.run, Talk.total, Talk.refused, Nat.add_assoc, Bool.or_assoc] using hs
    · rw [Sink.run, Dialogue.run_ask, Watched.sink_answer n failed hd]
      simpa [Sink.run, Talk.total, Talk.refused, Nat.add_assoc, Bool.or_assoc] using hr

end Fetcher

end ImageCache
