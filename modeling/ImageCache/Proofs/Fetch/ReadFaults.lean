import ImageCache.Proofs.Fetch.StreamCourse
import ImageCache.Proofs.Fetch.WriterLife
import ImageCache.Rehearsal.MapFetcher

namespace ImageCache

open Fetcher

variable {W R Wr S I E α β : Type} {retries : Fault → Bool} {wrap : Fault → E}

/-- Some faults are met by asking again. The program ends with any other that it is told of. -/
def Dialogue.PassesOn {Query : Type} {Reply : Query → Type}
    (fault? : (q : Query) × Reply q → Option Fault) (retries : Fault → Bool) (wrap : Fault → E)
    (p : Dialogue Query Reply (Except E α)) : Prop :=
  ∀ talk result, p.Plays talk result →
    ∀ e ∈ talk.filterMap fault?, retries e = false → result = .error (wrap e)

/-- A codec whose programs retry interruptions at most, and pass on all else. -/
structure Codec.PassesOn (c : Codec I E) (retries : Fault → Bool) (wrap : Fault → E) : Prop where
  interruptions : ∀ e, retries e = true → e.isInterruption = true
  bounds : c.bounds.PassesOn ReadQuery.fault? retries wrap
  decode : ∀ factor, (c.decode factor).PassesOn ReadQuery.fault? retries wrap
  boundsSeekable : c.boundsSeekable.PassesOn SeekQuery.fault? retries wrap
  decodeSeekable : ∀ factor, (c.decodeSeekable factor).PassesOn SeekQuery.fault? retries wrap

namespace Dialogue.PassesOn

section

variable {Query : Type} {Reply : Query → Type} {fault? : (q : Query) × Reply q → Option Fault}

theorem pure (result : Except E α) :
    PassesOn fault? retries wrap (pure result : Dialogue Query Reply (Except E α)) := by
  intro talk result plays e he
  cases plays with
  | done => simp at he

/-- A program that ends where its first part does not succeed. -/
theorem bind {p : Dialogue Query Reply (Except E α)}
    {f : Except E α → Dialogue Query Reply (Except E β)} (hp : p.PassesOn fault? retries wrap)
    (error : ∀ e, f (.error e) = Pure.pure (.error e))
    (ok : ∀ a, (f (.ok a)).PassesOn fault? retries wrap) :
    (p >>= f).PassesOn fault? retries wrap := by
  intro talk result plays e he hr
  obtain ⟨first, second, middle, rfl, hfirst, hsecond⟩ := plays_bind plays
  rw [List.filterMap_append, List.mem_append] at he
  cases middle with
  | ok a =>
    rcases he with he | he
    · cases hp first (.ok a) hfirst e he hr
    · exact ok a second result hsecond e he hr
  | error fault =>
    rw [error] at hsecond
    cases hsecond with
    | done =>
      rcases he with he | he
      · exact congrArg _ (Except.error.inj (hp first (.error fault) hfirst e he hr))
      · simp at he

end

theorem upTo {n : Nat} {next : Except Fault ByteArray → Reading (Except E α)}
    (ok : ∀ bytes, (next (.ok bytes)).PassesOn ReadQuery.fault? retries wrap)
    (again : ∀ e, retries e = true → (next (.error e)).PassesOn ReadQuery.fault? retries wrap)
    (error : ∀ e, retries e = false → next (.error e) = Pure.pure (.error (wrap e))) :
    (Reading.upTo n >>= next).PassesOn ReadQuery.fault? retries wrap := by
  intro talk result plays e he hr
  cases plays with
  | @ask _ _ reply talk _ rest =>
    change (next reply).Plays talk result at rest
    cases reply with
    | ok bytes => exact ok bytes talk result rest e he hr
    | error fault =>
      rcases List.mem_cons.mp he with rfl | he
      · rw [error e hr] at rest
        cases rest with
        | done => rfl
      · cases hf : retries fault with
        | true => exact again fault hf talk result rest e he hr
        | false =>
          rw [error fault hf] at rest
          cases rest with
          | done => simp at he

theorem horizon {next : Nat → Reading (Except E α)}
    (h : ∀ n, (next n).PassesOn ReadQuery.fault? retries wrap) :
    (Reading.horizon >>= next).PassesOn ReadQuery.fault? retries wrap := by
  intro talk result plays e he hr
  cases plays with
  | ask _ _ n rest => exact h n _ result rest e he hr

end Dialogue.PassesOn

namespace Reading

/-- A reading that never starts over says the same where it could. -/
theorem plays_seekable {p : Reading α} {talk : List ((q : SeekQuery) × q.Reply)} {a : α}
    (h : Dialogue.Plays p.seekable talk a) :
    ∃ talk' : List ((q : ReadQuery) × q.Reply), Dialogue.Plays p talk' a ∧
      talk.filterMap SeekQuery.fault? = talk'.filterMap ReadQuery.fault? := by
  induction p generalizing talk with
  | done b =>
    cases h with
    | done => exact ⟨[], .done a, rfl⟩
  | ask q next ih =>
    cases h with
    | ask _ _ reply rest =>
      obtain ⟨talk', plays, same⟩ := ih reply rest
      refine ⟨⟨q, reply⟩ :: talk', .ask q next reply plays, ?_⟩
      rw [List.filterMap_cons, List.filterMap_cons, same]
      rfl

theorem seekable_passes_on {p : Reading (Except E α)}
    (h : p.PassesOn ReadQuery.fault? retries wrap) :
    p.seekable.PassesOn SeekQuery.fault? retries wrap := by
  intro talk result plays e he hr
  obtain ⟨talk', plays', same⟩ := plays_seekable plays
  exact h talk' result plays' e (same ▸ he) hr

theorem gather_passes_on (fuel n : Nat) (got : ByteArray) :
    (gather fuel n got).PassesOn ReadQuery.fault? Fault.isInterruption id := by
  induction fuel generalizing n got with
  | zero => exact .pure _
  | succ fuel ih =>
    rw [gather]
    by_cases hn : n = 0
    · rw [if_pos hn]
      exact .pure _
    · rw [if_neg hn]
      refine .upTo ?_ ?_ ?_
      · intro bytes
        dsimp only
        split
        · exact .pure _
        · exact ih _ _
      · intro e he
        simp only [he, if_true]
        exact ih _ _
      · intro e he
        simp [he]

theorem exactly_passes_on (n : Nat) :
    (exactly n).PassesOn ReadQuery.fault? Fault.isInterruption id :=
  .horizon fun _ => gather_passes_on _ _ _

theorem loop_passes_on (fuel : Nat) (d : Drain) :
    (Drain.loop fuel d).PassesOn ReadQuery.fault? Fault.isInterruption id := by
  induction fuel generalizing d with
  | zero => exact .pure _
  | succ fuel ih =>
    rw [Drain.loop]
    split
    · exact .pure _
    · refine .upTo ?_ ?_ ?_
      · intro bytes
        dsimp only
        split
        · exact .pure _
        · exact ih _
      · intro e he
        simp only [he, if_true]
        exact ih _
      · intro e he
        simp [he]

theorem toEnd_passes_on : toEnd.PassesOn ReadQuery.fault? Fault.isInterruption id := by
  refine .bind (.horizon fun _ => loop_passes_on _ _) ?_ ?_
  · exact fun _ => rfl
  · exact fun _ => .pure _

end Reading

/-- A codec that reads entries as it reads streams passes on what it does from streams. -/
theorem Codec.sequential_passes_on {bounds : Reading (Except E Size)}
    {decode : UInt32 → Reading (Except E I)}
    (interruptions : ∀ e, retries e = true → e.isInterruption = true)
    (hb : bounds.PassesOn ReadQuery.fault? retries wrap)
    (hd : ∀ factor, (decode factor).PassesOn ReadQuery.fault? retries wrap) :
    (Codec.sequential bounds decode).PassesOn retries wrap where
  interruptions := interruptions
  bounds := hb
  decode := hd
  boundsSeekable := Reading.seekable_passes_on hb
  decodeSeekable factor := Reading.seekable_passes_on (hd factor)

/-- Any fault of a read that was not retried is the outcome, called a fault of the codec. -/
def PassedOn (retries : Fault → Bool) (wrap : Fault → E) (deeds : List (Deed R Wr S I))
    (outcome : Except (FetchFault E) α) : Prop :=
  ∀ e ∈ readFaults deeds, retries e = false → outcome = .error (.decode (wrap e))

def Retried (retries : Fault → Bool) (deeds : List (Deed R Wr S I)) : Prop :=
  ∀ e ∈ readFaults deeds, retries e = true

theorem Retried.passedOn {deeds : List (Deed R Wr S I)} (h : Retried retries deeds)
    (outcome : Except (FetchFault E) α) : PassedOn retries wrap deeds outcome := by
  intro e he hr
  simp [h e he] at hr

theorem PassedOn.behind {before deeds : List (Deed R Wr S I)}
    {outcome : Except (FetchFault E) α} (hb : Retried retries before)
    (h : PassedOn retries wrap deeds outcome) :
    PassedOn retries wrap (before ++ deeds) outcome := by
  intro e he hr
  rw [readFaults_append, List.mem_append] at he
  rcases he with he | he
  · simp [hb e he] at hr
  · exact h e he hr

theorem PassedOn.ok {deeds : List (Deed R Wr S I)} {a : α}
    (h : PassedOn retries wrap deeds (.ok a : Except (FetchFault E) α)) :
    Retried retries deeds := by
  intro e he
  cases hr : retries e with
  | true => rfl
  | false => cases h e he hr

theorem PassedOn.error {deeds : List (Deed R Wr S I)} {fault : FetchFault E}
    (h : PassedOn retries wrap deeds (.error fault : Except (FetchFault E) α)) :
    PassedOn retries wrap deeds (.error fault : Except (FetchFault E) β) := by
  intro e he hr
  rw [Except.error.inj (h e he hr)]

theorem Retried.event {deeds : List (Deed R Wr S I)} (h : Retried retries deeds) {r : Request}
    {e : Event} : Retried retries (.event r e :: deeds) := h

theorem PassedOn.event {deeds : List (Deed R Wr S I)} {outcome : Except (FetchFault E) α}
    (h : PassedOn retries wrap deeds outcome) {r : Request} {e : Event} :
    PassedOn retries wrap (.event r e :: deeds) outcome := h

theorem retried_readless {deeds : List (Deed R Wr S I)} (h : readFaults deeds = []) :
    Retried retries deeds := by
  intro e he
  simp [h] at he

theorem Retried.append {first second : List (Deed R Wr S I)} (hf : Retried retries first)
    (hs : Retried retries second) : Retried retries (first ++ second) := by
  intro e he
  rw [readFaults_append, List.mem_append] at he
  exact he.elim (hf e) (hs e)

section

variable {r : Request} {deeds : List (Deed R Wr S I)}

theorem Scan.readless {tags : List String}
    {outcome : Except (FetchFault E) (Option (R × Provenance))} (h : Scan r tags deeds outcome) :
    readFaults deeds = [] := by
  induction h with
  | miss h ih => simpa [readFaults, Deed.readFault?] using ih
  | _ => rfl

theorem Look.readless {outcome : Except (FetchFault E) (Option (R × Provenance))}
    (h : Look r deeds outcome) : readFaults deeds = [] := by
  cases h with
  | scan h => exact h.readless
  | _ => rfl

theorem Conveys.readless {writer last : Wr} {talk : Talk} (h : Conveys writer talk deeds last) :
    readFaults deeds = [] := by
  apply List.filterMap_eq_nil_iff.mpr
  intro deed hd
  have hu := h.uses deed hd
  cases deed with
  | offer writer bytes reply after => rfl
  | flush writer reply after => rfl
  | _ => cases hu

theorem Ending.readless {talk : Talk} {last : Wr} {result : Except Fault Unit}
    {outcome : Except (FetchFault E) (Option R)} (h : Ending r talk last result deeds outcome) :
    readFaults deeds = [] := by
  cases h with
  | refused e reply => cases reply <;> rfl
  | failed e reply => cases reply <;> rfl
  | _ => rfl

theorem Download.readless {outcome : Except (FetchFault E) (Option R)}
    (h : Download r deeds outcome) : readFaults deeds = [] := by
  cases h with
  | unstaged e => rfl
  | conflict => rfl
  | @sent _ _ _ _ _ ending _ sending ends =>
    cases sending with
    | @intro program _ _ during _ plays conveys =>
      change readFaults (during ++ ending) = []
      rw [readFaults_append, conveys.readless, ends.readless, List.append_nil]

/-- Until an entry is decoded nothing is read out of one. -/
theorem Locate.readless {outcome : Except (FetchFault E) (Option (R × Provenance))}
    (h : Locate r deeds outcome) : readFaults deeds = [] := by
  cases h with
  | fault look => exact look.readless
  | found look => exact look.readless
  | downloaded look download =>
    rw [readFaults_append, look.readless, download.readless, List.append_nil]

end

section

variable {Query : Type} {Reply : Query → Type} {σ : Type}
  {fault? : (q : Query) × Reply q → Option Fault} {answer : (q : Query) → σ → Reply q × σ}
  {p : Dialogue Query Reply (Except E α)} {s last : σ} {deeds : List (Deed R Wr S I)}

theorem Dialogue.PassesOn.heard (h : p.PassesOn fault? retries wrap) {result : Except E α}
    (run : p.run answer s = (result, last))
    (heard : readFaults deeds = (p.talk answer s).filterMap fault?) :
    ∀ e ∈ readFaults deeds, retries e = false → result = .error (wrap e) := by
  have plays := p.plays_talk answer s
  rw [run] at plays
  rw [heard]
  exact h _ _ plays

/-- After a pass of the codec that succeeded all faults were retried. -/
theorem Dialogue.PassesOn.retried (h : p.PassesOn fault? retries wrap) {a : α}
    (run : p.run answer s = (.ok a, last))
    (heard : readFaults deeds = (p.talk answer s).filterMap fault?) : Retried retries deeds := by
  intro e he
  cases hr : retries e with
  | true => rfl
  | false => cases h.heard run heard e he hr

/-- A pass of the codec that failed is the last that is done to an entry or stream. -/
theorem Dialogue.PassesOn.failed (h : p.PassesOn fault? retries wrap) {fault : E}
    (run : p.run answer s = (.error fault, last))
    (heard : readFaults deeds = (p.talk answer s).filterMap fault?) :
    PassedOn retries wrap (deeds ++ [.notice .decodeFailed])
      (.error (.decode fault) : Except (FetchFault E) β) := by
  intro e he hr
  have hd : e ∈ readFaults deeds := by
    rwa [readFaults_append, show readFaults [.notice .decodeFailed] = [] from rfl,
      List.append_nil] at he
  rw [Except.error.inj (h.heard run heard e hd hr)]

end

namespace Fetcher

section

variable {f : Fetcher W R Wr S I E} {r : Request} {w : W} {record : List (Deed R Wr S I)}

theorem decodeEntry_passes_on (h : f.codec.PassesOn retries wrap) (entry : R) :
    Goes f ⟨r, w⟩ record (f.decodeEntry entry) (f.recorded.decodeEntry entry)
      fun done outcome _ => PassedOn retries wrap done outcome := by
  refine decoding_bind (f.buffered_run f.codec.boundsSeekable (Buffered.start entry) w record) ?_ ?_
  · intro deeds origin handle w₁ hb ⟨_, heard⟩
    have bounded : Retried retries deeds := h.boundsSeekable.retried hb heard
    obtain ⟨seeks, reply, rewound, w₂, hs, hr, hl, -, unread⟩ :=
      f.buffered_rewind handle w₁ (record ++ deeds)
    have rewinding : Retried retries (deeds ++ seeks) := bounded.append (retried_readless unread)
    refine Goes.act_bind (a := (reply, rewound)) ?_ ?_ hl ?_
    · simp [hs]
    · simp [hr]
    refine fromReply_bind reply ?_ ?_
    · rintro _ rfl
      refine choosePlan_bind origin fun w₃ past told => ?_
      refine decoding_bind (f.buffered_run (f.codec.decodeSeekable _) rewound w₃ past) ?_ ?_
      · intro more image last w₄ hi ⟨_, heard'⟩
        have decoded : Retried retries more := (h.decodeSeekable _).retried hi heard'
        refine Goes.pure ?_
        rw [List.append_nil, ← List.append_assoc]
        exact (rewinding.append decoded.event).passedOn _
      · intro more e last w₄ w' hi ⟨_, heard'⟩
        rw [← List.append_assoc]
        exact ((h.decodeSeekable _).failed hi heard').event.behind rewinding
    · rintro e w' rfl
      rw [← List.append_assoc]
      exact (rewinding.append (retried_readless rfl)).passedOn _
  · intro deeds e last w₁ w' hb ⟨_, heard⟩
    exact h.boundsSeekable.failed hb heard

theorem fetchSteps_passes_on (h : f.codec.PassesOn retries wrap) :
    Goes f ⟨r, w⟩ record f.fetchSteps f.recorded.fetchSteps
      fun done outcome _ => PassedOn retries wrap done outcome := by
  refine Goes.get_bind (Goes.call_bind (fun _ => .event r (.started r.fileKey)) rfl ?_)
  intro _ w₁ _
  refine Goes.bind locate_goes ?_ ?_
  · rintro deeds found _ - ⟨locate, w', rfl⟩
    have located : Retried retries deeds := retried_readless locate.readless
    cases found with
    | none =>
      refine emit_bind .unavailable fun w'' => Goes.pure ?_
      exact ((located.append (retried_readless readFaults_nil).event).passedOn _).event
    | some place =>
      refine Goes.bind (decodeEntry_passes_on h place.1) ?_ ?_
      · rintro more ⟨image, plan⟩ left - passed
        refine Goes.pure ?_
        rw [List.append_nil]
        exact ((located.append passed.ok).passedOn _).event
      · rintro more e left passed
        exact (passed.error.behind located).event
  · rintro deeds e _ ⟨locate, w', rfl⟩
    exact ((retried_readless locate.readless).passedOn _).event

theorem decodeStream_passes_on (h : f.codec.PassesOn retries wrap) (stream : S) :
    Goes f ⟨r, w⟩ record (f.decodeStream stream) (f.recorded.decodeStream stream)
      fun done outcome _ => PassedOn retries wrap done outcome := by
  refine decoding_bind (f.rewindable_run f.codec.bounds (f.marked stream) w record) ?_ ?_
  · intro deeds origin handle w₁ hb ⟨_, heard⟩
    have bounded : Retried retries deeds := h.bounds.retried hb heard
    dsimp only
    obtain ⟨⟨reply, back⟩, reset⟩ : ∃ out, handle.reset 0 = out := ⟨_, rfl⟩
    rw [show handle.reset (Rewindable.start stream).position = _ from reset]
    cases reply with
    | error e =>
      refine Goes.throw ?_
      rw [List.append_nil]
      exact bounded.passedOn _
    | ok _ =>
      refine choosePlan_bind origin fun w₂ past told => ?_
      refine decoding_bind (f.rewindable_run (f.codec.decode _) back w₂ past) ?_ ?_
      · intro more image last w₃ hi ⟨_, heard'⟩
        have decoded : Retried retries more := (h.decode _).retried hi heard'
        refine Goes.pure ?_
        rw [List.append_nil]
        exact (bounded.append decoded.event).passedOn _
      · intro more e last w₃ w' hi ⟨_, heard'⟩
        exact ((h.decode _).failed hi heard').event.behind bounded
  · intro deeds e last w₁ w' hb ⟨_, heard⟩
    exact h.bounds.failed hb heard

theorem streamSteps_passes_on (h : f.codec.PassesOn retries wrap) :
    Goes f ⟨r, w⟩ record f.streamSteps f.recorded.streamSteps
      fun done outcome _ => PassedOn retries wrap done outcome := by
  have nothing : Retried retries ([] : List (Deed R Wr S I)) := retried_readless rfl
  refine Goes.get_bind (Goes.call_bind (fun _ => .event r (.downloading r.remoteUrl)) rfl ?_)
  intro _ w₁ told
  refine Goes.call_bind (.openStream r.remoteUrl) rfl ?_
  intro reply w₂ opens
  match reply with
  | .ok (some stream) =>
    refine Goes.bind (decodeStream_passes_on h stream) ?_ ?_
    · rintro deeds ⟨image, plan⟩ left - passed
      refine Goes.pure ?_
      rw [List.append_nil]
      exact passed.ok.passedOn _
    · rintro deeds e left passed
      exact passed.error
  | .ok none => exact emit_bind .unavailable fun w' => Goes.pure (nothing.passedOn _)
  | .error e =>
    refine emit_bind (.downloadFailed e.message) fun w₃ => ?_
    exact emit_bind .unavailable fun w' => Goes.pure (nothing.passedOn _)

end

theorem fetch_passes_on {f : Fetcher W R Wr S I E} (h : f.codec.PassesOn retries wrap)
    (r : Request) (w : W) : PassedOn retries wrap (f.trace r w) (f.fetch r w).1.1 :=
  fetch_of_goes (fetchSteps_passes_on h)

theorem streaming_passes_on {f : Fetcher W R Wr S I E} (h : f.codec.PassesOn retries wrap)
    (r : Request) (w : W) :
    PassedOn retries wrap (f.streamTrace r w) (f.fetchStreaming r w).1.1 :=
  streaming_of_goes (streamSteps_passes_on h)

/-- Only where all reads of the entry went well, or were retried, does the fetch say that its bytes
could not be decoded. If one failed, the store is at fault. -/
def ToldFromDecoding (f : Fetcher W R Wr S I E) (retries : Fault → Bool) (r : Request) (w : W) :
    Prop :=
  ((∃ e, (f.fetch r w).1.1 = .error (.decode e)) → Retried retries (f.trace r w)) ∧
    ((∃ e ∈ readFaults (f.trace r w), retries e = false) →
      ∃ e, (f.fetch r w).1.1 = .error (.store e))

/-- The same for streams, whose faults are nobody's in particular. -/
def StreamToldFromDecoding (f : Fetcher W R Wr S I E) (retries : Fault → Bool) (r : Request)
    (w : W) : Prop :=
  (∃ e, (f.fetchStreaming r w).1.1 = .error (.decode e)) → Retried retries (f.streamTrace r w)

/-- With a codec that passes on the faults of its reader, these are told from its own in just those
fetches in which there are none, but for those that were retried. -/
theorem told_from_decoding_iff (f : Fetcher W R Wr S I E) (retries : Fault → Bool)
    (wrap : Fault → E) (h : f.codec.PassesOn retries wrap) (r : Request) (w : W) :
    (f.ToldFromDecoding retries r w ↔ Retried retries (f.trace r w)) ∧
      (f.StreamToldFromDecoding retries r w ↔ Retried retries (f.streamTrace r w)) := by
  constructor
  · constructor
    · rintro ⟨-, stored⟩ e he
      cases hr : retries e with
      | true => rfl
      | false =>
        obtain ⟨fault, result⟩ := stored ⟨e, he, hr⟩
        cases result.symm.trans (fetch_passes_on h r w e he hr)
    · intro retried
      refine ⟨fun _ => retried, ?_⟩
      rintro ⟨e, he, hr⟩
      simp [retried e he] at hr
  · constructor
    · intro told e he
      cases hr : retries e with
      | true => rfl
      | false =>
        have decoded := streaming_passes_on h r w e he hr
        exact absurd (told ⟨_, decoded⟩ e he) (Bool.eq_false_iff.mp hr)
    · exact fun retried _ => retried

end Fetcher

namespace Rehearsal

theorem Tile.bounds_passes_on :
    bounds.PassesOn ReadQuery.fault? Fault.isInterruption id := by
  refine .bind (Reading.exactly_passes_on 12) (fun _ => rfl) ?_
  intro header
  dsimp only
  split
  · exact .pure _
  · exact .pure _

theorem Tile.codec_passes_on : Tile.codec.PassesOn Fault.isInterruption id := by
  refine Codec.sequential_passes_on (fun _ => id) bounds_passes_on fun factor => ?_
  refine .bind bounds_passes_on (fun _ => rfl) fun size => ?_
  exact .bind Reading.toEnd_passes_on (fun _ => rfl) fun rest => .pure _

/-- The tile is in the store and at its source, and neither hands out a byte at the wall or behind
it. -/
def walled (wall : Option Nat) : World MapStore Tile :=
  (World.start { MapStore.empty.insert thumbnail.fileKey smallTile with
      faults := { StoreFaults.none with readWall := wall } } ⟨0, 0⟩).serve "tile"
    ⟨none, none, some { Stream.ofBytes smallTile with
      wall := wall.map (·, .reported .brokenPipe "connection lost") }⟩

def hesitant (s : Stream) : Stream := { s with cues := [.fails (.reported .interrupted "again")] }

def hesitantFetcher : Fetcher (World MapStore Tile) MapEntry MapWriter Stream Tile Fault :=
  { mapFetcher with
    store := { mapFetcher.store with
      read := fun key => do
        let reply ← mapFetcher.store.read key
        return reply.map (·.map fun entry => { entry with stream := hesitant entry.stream }) } }

/-- The tile is in the store and at its source, which interrupts the first read, too. -/
def hesitantWorld : World MapStore Tile :=
  (World.start (MapStore.empty.insert thumbnail.fileKey smallTile) ⟨0, 0⟩).serve "tile"
    ⟨none, none, some (hesitant (Stream.ofBytes smallTile))⟩

/-- Interruptions that are met by reading again blame nobody. -/
theorem hesitant_told :
    Tile.codec.PassesOn Fault.isInterruption id ∧
      readFaults (hesitantFetcher.trace thumbnail hesitantWorld) =
        [.reported .interrupted "again"] ∧
      readFaults (hesitantFetcher.streamTrace thumbnail hesitantWorld) =
        [.reported .interrupted "again"] ∧
      hesitantFetcher.ToldFromDecoding Fault.isInterruption thumbnail hesitantWorld ∧
      hesitantFetcher.StreamToldFromDecoding Fault.isInterruption thumbnail hesitantWorld := by
  have fetched : readFaults (hesitantFetcher.trace thumbnail hesitantWorld) =
      [.reported .interrupted "again"] := by decide +kernel
  have streamed : readFaults (hesitantFetcher.streamTrace thumbnail hesitantWorld) =
      [.reported .interrupted "again"] := by decide +kernel
  have retried : ∀ deeds : List (Deed MapEntry MapWriter Stream Tile),
      readFaults deeds = [.reported .interrupted "again"] →
      Retried Fault.isInterruption deeds := by
    intro deeds hf e he
    rw [hf, List.mem_singleton] at he
    rw [he]
    rfl
  obtain ⟨stored, sent⟩ := told_from_decoding_iff hesitantFetcher Fault.isInterruption id
    Tile.codec_passes_on thumbnail hesitantWorld
  exact ⟨Tile.codec_passes_on, fetched, streamed, stored.mpr (retried _ fetched),
    sent.mpr (retried _ streamed)⟩

/-- Behind the header there is a wall. That the disk failed is taken for broken bytes, and so is
that the connection did. -/
theorem walled_untold :
    ¬ mapFetcher.ToldFromDecoding Fault.isInterruption thumbnail (walled (some 13)) ∧
      ¬ mapFetcher.StreamToldFromDecoding Fault.isInterruption thumbnail (walled (some 13)) := by
  have fetched : readFaults (mapFetcher.trace thumbnail (walled (some 13))) =
      [.reported .brokenPipe "disk read failed"] := by
    decide +kernel
  have streamed : readFaults (mapFetcher.streamTrace thumbnail (walled (some 13))) =
      [.reported .brokenPipe "connection lost"] := by
    decide +kernel
  have fault : Fault.reported .brokenPipe "disk read failed" ∈
      readFaults (mapFetcher.trace thumbnail (walled (some 13))) := by
    rw [fetched]
    exact List.mem_cons_self
  have lost : Fault.reported .brokenPipe "connection lost" ∈
      readFaults (mapFetcher.streamTrace thumbnail (walled (some 13))) := by
    rw [streamed]
    exact List.mem_cons_self
  constructor
  · rintro ⟨-, stored⟩
    obtain ⟨e, result⟩ := stored ⟨_, fault, rfl⟩
    have decoded := fetch_passes_on Tile.codec_passes_on thumbnail (walled (some 13)) _ fault rfl
    cases result.symm.trans decoded
  · intro told
    have decoded := streaming_passes_on Tile.codec_passes_on thumbnail (walled (some 13)) _ lost rfl
    cases told ⟨_, decoded⟩ _ lost

end Rehearsal

end ImageCache
