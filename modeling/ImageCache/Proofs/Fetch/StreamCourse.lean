import ImageCache.Proofs.Fetch.Course
import ImageCache.Proofs.Reading.Layers

namespace ImageCache

open Fetcher

variable {W R Wr S I E α : Type}

namespace Deed

def isIntake : Deed R Wr S I → Bool
  | .stream _ _ _ _ => true
  | _ => false

def asksStore : Deed R Wr S I → Bool
  | .read _ _ => true
  | .stage _ _ => true
  | .peruse _ _ _ _ => true
  | .rewind _ _ _ => true
  | .offer _ _ _ _ => true
  | .flush _ _ _ => true
  | .commit _ _ => true
  | .abort _ _ => true
  | .maintain _ => true
  | _ => false

def isStreaming : Deed R Wr S I → Bool
  | .openStream _ _ => true
  | .stream _ _ _ _ => true
  | .event _ _ => true
  | .notice _ => true
  | _ => false

theorem isStreaming_of_isIntake {deed : Deed R Wr S I} (h : deed.isIntake) :
    deed.isStreaming = true := by
  cases deed with
  | stream stream n reply after => rfl
  | _ => cases h

theorem asksStore_of_isStreaming {deed : Deed R Wr S I} (h : deed.isStreaming) :
    deed.asksStore = false := by
  cases deed with
  | openStream url reply => rfl
  | stream stream n reply after => rfl
  | event r e => rfl
  | notice n => rfl
  | _ => cases h

end Deed

namespace Fetcher

variable {f : Fetcher W R Wr S I E}

theorem recorded_stream {stream next : S} {w after : W} {n : Nat} {reply : Except Fault ByteArray}
    (record : List (Deed R Wr S I))
    (h : f.source.stream.read n (stream, w) = (reply, (next, after))) :
    f.recorded.source.stream.read n (stream, (w, record)) =
      (reply, (next, (after, record ++ [.stream stream n reply next]))) := by
  simp [recorded, Source.recorded, notedWith, h]

theorem rewindableStream_read (n : Nat) (handle : Rewindable S) (w : W) :
    f.rewindableStream.read n (handle, w) =
      ((Rewindable.read f.source.stream n (Rewindable.attach (handle, w))).1,
        Rewindable.detach
          (Rewindable.read f.source.stream n (Rewindable.attach (handle, w))).2) := rfl

/-- The window asks the stream below at most once to answer a query. -/
theorem rewindable_read (handle : Rewindable S) (n : Nat) (w : W)
    (record : List (Deed R Wr S I)) :
    ∃ deeds reply next after, f.rewindableStream.read n (handle, w) = (reply, (next, after)) ∧
      f.recorded.rewindableStream.read n (handle, (w, record)) =
        (reply, (next, (after, record ++ deeds))) ∧
      f.Leads w deeds after ∧ (∀ deed ∈ deeds, deed.isIntake) ∧
      readFaults deeds = [⟨.upTo n, reply⟩].filterMap ReadQuery.fault? := by
  have ahead : ∀ {V : Type} (x : V), (Rewindable.attach (handle, x)).ahead = handle.ahead :=
    fun _ => rfl
  by_cases ha : handle.ahead.size = 0
  · obtain ⟨⟨reply, stream, after⟩, hr⟩ :
      ∃ out, f.source.stream.read n (handle.inner, w) = out := ⟨_, rfl⟩
    have hp := recorded_stream record hr
    have inner : ∀ {V : Type} (x : V), (Rewindable.attach (handle, x)).inner = (handle.inner, x) :=
      fun _ => rfl
    cases reply with
    | ok bytes =>
      refine ⟨[.stream handle.inner n (.ok bytes) stream], .ok bytes,
        ({ handle with inner := stream } : Rewindable S).receive bytes, after, ?_, ?_,
        leads_single.mpr hr, by simp [Deed.isIntake], rfl⟩
      · simp only [rewindableStream_read, Rewindable.read, ahead, inner, ha, hr, ne_eq,
          not_true_eq_false, if_false, Rewindable.detach_receive]
        rfl
      · simp only [rewindableStream_read, Rewindable.read, ahead, inner, ha, hp, ne_eq,
          not_true_eq_false, if_false, Rewindable.detach_receive]
        rfl
    | error e =>
      refine ⟨[.stream handle.inner n (.error e) stream], .error e,
        { handle with inner := stream }, after, ?_, ?_, leads_single.mpr hr,
        by simp [Deed.isIntake], rfl⟩
      · simp only [rewindableStream_read, Rewindable.read, ahead, inner, ha, hr, ne_eq,
          not_true_eq_false, if_false]
        rfl
      · simp only [rewindableStream_read, Rewindable.read, ahead, inner, ha, hp, ne_eq,
          not_true_eq_false, if_false]
        rfl
  · refine ⟨[], .ok (handle.ahead.extract 0 n),
      { handle with position := handle.position + (handle.ahead.extract 0 n).size }, w, ?_, ?_,
      leads_nil f w, by simp, rfl⟩
    · simp only [rewindableStream_read, Rewindable.read, ahead, ha, ne_eq, not_false_eq_true,
        if_true]
      rfl
    · simp only [rewindableStream_read, Rewindable.read, ahead, ha, ne_eq, not_false_eq_true,
        if_true, List.append_nil]
      rfl

/-- A program of a codec run on a stream of a fetcher, and on one of the recorded fetcher. -/
theorem rewindable_run (p : Reading α) (handle : Rewindable S) (w : W)
    (record : List (Deed R Wr S I)) :
    ∃ deeds result next after, f.rewindableStream.run p (handle, w) = (result, (next, after)) ∧
      f.recorded.rewindableStream.run p (handle, (w, record)) =
        (result, (next, (after, record ++ deeds))) ∧
      f.Leads w deeds after ∧ (∀ deed ∈ deeds, deed.isIntake) ∧
      readFaults deeds =
        (p.talk f.rewindableStream.answer (handle, w)).filterMap ReadQuery.fault? := by
  induction p generalizing handle w record with
  | done a => exact ⟨[], a, handle, w, rfl, by simp [Reader.run], leads_nil f w, by simp, rfl⟩
  | ask q next ih =>
    have answered : ∃ deeds reply middle between,
        f.rewindableStream.answer q (handle, w) = (reply, (middle, between)) ∧
        f.recorded.rewindableStream.answer q (handle, (w, record)) =
          (reply, (middle, (between, record ++ deeds))) ∧
        f.Leads w deeds between ∧ (∀ deed ∈ deeds, deed.isIntake) ∧
        readFaults deeds = [⟨q, reply⟩].filterMap ReadQuery.fault? := by
      cases q with
      | upTo n => exact rewindable_read handle n w record
      | horizon =>
        refine ⟨[], f.rewindableStream.horizon (handle, w), handle, w, rfl, ?_, leads_nil f w,
          by simp, rfl⟩
        rw [List.append_nil]
        rfl
    obtain ⟨deeds, reply, middle, between, ha, hr, hl, hp, hf⟩ := answered
    obtain ⟨more, result, last, after, hs, hrs, hl', hp', hf'⟩ :=
      ih reply middle between (record ++ deeds)
    refine ⟨deeds ++ more, result, last, after, ?_, ?_, leads_append.mpr ⟨between, hl, hl'⟩,
      List.forall_mem_append.mpr ⟨hp, hp'⟩, ?_⟩
    · rw [Reader.run, Dialogue.run_ask, ha]
      exact hs
    · rw [Reader.run, Dialogue.run_ask, hr, ← List.append_assoc]
      exact hrs
    · rw [readFaults_append, hf, hf', ← List.filterMap_append, Dialogue.talk, ha]
      rfl

end Fetcher

/-- An open stream with its first position saved, as far back as the settings allow. -/
def Fetcher.marked (f : Fetcher W R Wr S I E) (stream : S) : Rewindable S :=
  ((Rewindable.start stream).savePosition f.settings.lookAhead).2

/-- Decoding an open stream: a pass for the size, back to the first position if it is still held, a
pass for the image. -/
inductive StreamDecode (f : Fetcher W R Wr S I E) (stream : S) : Session W →
    Except (FetchFault E) (I × DecodePlan) → Session W → Prop
  | noSize {r : Request} {w w₁ w' : W} {handle : Rewindable S} {e : E}
      (bounds : f.rewindableStream.run f.codec.bounds (f.marked stream, w) =
        (.error e, (handle, w₁))) :
      StreamDecode f stream ⟨r, w⟩ (.error (.decode e)) ⟨r, w'⟩
  | tooFar {r : Request} {w w₁ : W} {handle back : Rewindable S} {origin : Size} {fault : Fault}
      (bounds : f.rewindableStream.run f.codec.bounds (f.marked stream, w) =
        (.ok origin, (handle, w₁)))
      (lost : handle.reset 0 = (.error fault, back)) :
      StreamDecode f stream ⟨r, w⟩ (.error (.lookAheadExceeded f.settings.lookAhead)) ⟨r, w₁⟩
  | noImage {r : Request} {w w₁ w₂ w₃ w' : W} {handle back last : Rewindable S} {origin : Size}
      {e : E}
      (bounds : f.rewindableStream.run f.codec.bounds (f.marked stream, w) =
        (.ok origin, (handle, w₁)))
      (reset : handle.reset 0 = (.ok (), back))
      (told : f.observer.onEvent (r.recordOrigin origin)
        (.decoding origin (DecodePlan.choose origin r.target).factor) w₁ = ((), w₂))
      (image : f.rewindableStream.run
        (f.codec.decode (DecodePlan.choose origin r.target).factor) (back, w₂) =
          (.error e, (last, w₃))) :
      StreamDecode f stream ⟨r, w⟩ (.error (.decode e)) ⟨r.recordOrigin origin, w'⟩
  | image {r : Request} {w w₁ w₂ w' : W} {handle back last : Rewindable S} {origin : Size}
      {image : I}
      (bounds : f.rewindableStream.run f.codec.bounds (f.marked stream, w) =
        (.ok origin, (handle, w₁)))
      (reset : handle.reset 0 = (.ok (), back))
      (told : f.observer.onEvent (r.recordOrigin origin)
        (.decoding origin (DecodePlan.choose origin r.target).factor) w₁ = ((), w₂))
      (decode : f.rewindableStream.run
        (f.codec.decode (DecodePlan.choose origin r.target).factor) (back, w₂) =
          (.ok image, (last, w'))) :
      StreamDecode f stream ⟨r, w⟩ (.ok (image, DecodePlan.choose origin r.target))
        ⟨r.recordOrigin origin, w'⟩

inductive StreamCourse (f : Fetcher W R Wr S I E) (r : Request) (w : W) :
    FetchResult I E → Session W → Prop
  | missing {w₁ w₂ w' : W} {reply : Except Fault (Option S)}
      (told : f.observer.onEvent r (.downloading r.remoteUrl) w = ((), w₁))
      (opens : f.source.openStream r.remoteUrl w₁ = (reply, w₂))
      (unopened : ∀ stream, reply ≠ .ok (some stream)) : StreamCourse f r w (.ok none) ⟨r, w'⟩
  | opened {w₁ w₂ : W} {stream : S} {outcome : Except (FetchFault E) (I × DecodePlan)}
      {left : Session W} (told : f.observer.onEvent r (.downloading r.remoteUrl) w = ((), w₁))
      (opens : f.source.openStream r.remoteUrl w₁ = (.ok (some stream), w₂))
      (decode : StreamDecode f stream ⟨r, w₂⟩ outcome left) :
      StreamCourse f r w (outcome.map fun (image, plan) => some ⟨image, .stream, plan⟩) left

namespace Fetcher

variable {f : Fetcher W R Wr S I E} {r : Request} {w : W} {record : List (Deed R Wr S I)}

theorem decodeStream_goes (stream : S) :
    Goes f ⟨r, w⟩ record (f.decodeStream stream) (f.recorded.decodeStream stream)
      fun done outcome left => StreamDecode f stream ⟨r, w⟩ outcome left ∧
        ∀ deed ∈ done, deed.isStreaming = true := by
  have intake : ∀ {deeds : List (Deed R Wr S I)}, (∀ deed ∈ deeds, deed.isIntake) →
      ∀ deed ∈ deeds, deed.isStreaming = true :=
    fun h deed hd => Deed.isStreaming_of_isIntake (h deed hd)
  refine decoding_bind (f.rewindable_run f.codec.bounds (f.marked stream) w record) ?_ ?_
  · intro deeds origin handle w₁ hb ⟨hd, _⟩
    dsimp only
    obtain ⟨⟨reply, back⟩, reset⟩ : ∃ out, handle.reset 0 = out := ⟨_, rfl⟩
    rw [show handle.reset (Rewindable.start stream).position = _ from reset]
    cases reply with
    | error e =>
      refine Goes.throw ⟨.tooFar hb reset, ?_⟩
      rw [List.append_nil]
      exact intake hd
    | ok _ =>
      refine choosePlan_bind origin fun w₂ past told => ?_
      refine decoding_bind (f.rewindable_run (f.codec.decode _) back w₂ past) ?_ ?_
      · intro more image last w₃ hi ⟨hm, _⟩
        refine Goes.pure ⟨.image hb reset told hi, ?_⟩
        rw [List.append_nil]
        exact List.forall_mem_append.mpr ⟨intake hd, List.forall_mem_cons.mpr ⟨rfl, intake hm⟩⟩
      · intro more e last w₃ w' hi ⟨hm, _⟩
        refine ⟨.noImage hb reset told hi, List.forall_mem_append.mpr ⟨intake hd, ?_⟩⟩
        refine List.forall_mem_cons.mpr ⟨rfl, List.forall_mem_append.mpr ⟨intake hm, ?_⟩⟩
        simp [Deed.isStreaming]
  · intro deeds e last w₁ w' hb ⟨hd, _⟩
    refine ⟨.noSize hb, ?_⟩
    exact List.forall_mem_append.mpr ⟨intake hd, by simp [Deed.isStreaming]⟩

theorem streamSteps_goes :
    Goes f ⟨r, w⟩ record f.streamSteps f.recorded.streamSteps
      fun done outcome left => StreamCourse f r w outcome left ∧
        ∀ deed ∈ done, deed.isStreaming = true := by
  refine Goes.get_bind (Goes.call_bind (fun _ => .event r (.downloading r.remoteUrl)) rfl ?_)
  intro _ w₁ told
  refine Goes.call_bind (.openStream r.remoteUrl) rfl ?_
  intro reply w₂ opens
  match reply with
  | .ok (some stream) =>
    refine Goes.bind (decodeStream_goes stream) ?_ ?_
    · rintro deeds ⟨image, plan⟩ left - ⟨decode, hd⟩
      refine Goes.pure ⟨.opened told opens decode, ?_⟩
      rw [List.append_nil]
      exact List.forall_mem_cons.mpr ⟨rfl, List.forall_mem_cons.mpr ⟨rfl, hd⟩⟩
    · rintro deeds e left ⟨decode, hd⟩
      exact ⟨.opened told opens decode,
        List.forall_mem_cons.mpr ⟨rfl, List.forall_mem_cons.mpr ⟨rfl, hd⟩⟩⟩
  | .ok none =>
    refine emit_bind .unavailable fun w' => Goes.pure ⟨.missing told opens nofun, ?_⟩
    simp [Deed.isStreaming]
  | .error e =>
    refine emit_bind (.downloadFailed e.message) fun w₃ => ?_
    refine emit_bind .unavailable fun w' => Goes.pure ⟨.missing told opens nofun, ?_⟩
    simp [Deed.isStreaming]

/-- What streaming asks of the collaborators, in order, with their replies. -/
def streamTrace (f : Fetcher W R Wr S I E) (r : Request) (w : W) : List (Deed R Wr S I) :=
  (f.recorded.fetchStreaming r (w, [])).2.2

theorem streaming_of_goes {φ : List (Deed R Wr S I) → FetchResult I E → Prop}
    (goes : Goes f ⟨r, w⟩ [] f.streamSteps f.recorded.streamSteps fun done outcome _ =>
      φ done outcome) : φ (f.streamTrace r w) (f.fetchStreaming r w).1.1 := by
  obtain ⟨deeds, outcome, left, hs, hr, -, h⟩ := goes
  have hf : (f.fetchStreaming r w).1.1 = outcome := by
    simp [fetchStreaming, FetchM.runFor, hs]
  have ht : f.streamTrace r w = deeds := by
    simp [streamTrace, fetchStreaming, FetchM.runFor, hr]
  rwa [hf, ht]

/-- Writing it down changes neither the result of streaming nor the world it leaves, and nothing is
done but to open and read a stream and to tell of it. -/
theorem streaming_goes (f : Fetcher W R Wr S I E) (r : Request) (w : W) :
    ∃ outcome left, f.fetchStreaming r w = ((outcome, left.request), left.world) ∧
      f.recorded.fetchStreaming r (w, []) =
        ((outcome, left.request), (left.world, f.streamTrace r w)) ∧
      f.Leads w (f.streamTrace r w) left.world ∧ StreamCourse f r w outcome left ∧
      ∀ deed ∈ f.streamTrace r w, deed.isStreaming = true := by
  have hgoes : Goes f ⟨r, w⟩ [] f.streamSteps f.recorded.streamSteps
      fun done outcome left => StreamCourse f r w outcome left ∧
        ∀ deed ∈ done, deed.isStreaming = true := streamSteps_goes
  obtain ⟨deeds, outcome, left, hs, hr, hl, course, streaming⟩ := hgoes
  have hf : f.fetchStreaming r w = ((outcome, left.request), left.world) := by
    simp [fetchStreaming, FetchM.runFor, hs]
  have hfr : f.recorded.fetchStreaming r (w, []) =
      ((outcome, left.request), (left.world, deeds)) := by
    simp [fetchStreaming, FetchM.runFor, hr]
  have ht : f.streamTrace r w = deeds := by
    simp [streamTrace, hfr]
  rw [ht]
  exact ⟨outcome, left, hf, hfr, hl, course, streaming⟩

/-- Nothing that is written down of streaming concerns the store. -/
theorem streaming_course (f : Fetcher W R Wr S I E) (r : Request) (w : W) :
    ∃ outcome left, f.fetchStreaming r w = ((outcome, left.request), left.world) ∧
      f.recorded.fetchStreaming r (w, []) =
        ((outcome, left.request), (left.world, f.streamTrace r w)) ∧
      StreamCourse f r w outcome left ∧ ∀ deed ∈ f.streamTrace r w, deed.asksStore = false := by
  obtain ⟨outcome, left, hf, hfr, -, course, streaming⟩ := f.streaming_goes r w
  exact ⟨outcome, left, hf, hfr, course,
    fun deed hd => Deed.asksStore_of_isStreaming (streaming deed hd)⟩

end Fetcher

end ImageCache
