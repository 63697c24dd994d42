import ImageCache.Proofs.Fetch.Report
import ImageCache.Proofs.Fetch.StreamCourse
import ImageCache.Proofs.Reading.Pass
import ImageCache.Rehearsal.MapFetcher

namespace ImageCache

open Fetcher

variable {W R Wr S I E : Type}

/-- Streaming opens a stream, and the codec finds this size in it by these calls, which leave the
stream and the world like this. -/
def Fetcher.StreamSized (f : Fetcher W R Wr S I E) (r : Request) (w : W) (origin : Size)
    (calls : List Intake) (left : S × W) : Prop :=
  ∃ w₁ w₂ stream, f.observer.onEvent r (.downloading r.remoteUrl) w = ((), w₁) ∧
    f.source.openStream r.remoteUrl w₁ = (.ok (some stream), w₂) ∧
    f.source.stream.recorded.run f.codec.bounds ((stream, w₂), []) = (.ok origin, (left, calls))

/-- There is one stream that streaming opens, and one pass for the size over it. -/
theorem Fetcher.StreamSized.pass {f : Fetcher W R Wr S I E} {r : Request} {w w₁ w₂ : W}
    {stream : S} {origin : Size} {calls : List Intake} {left : S × W}
    (sized : f.StreamSized r w origin calls left)
    (told : f.observer.onEvent r (.downloading r.remoteUrl) w = ((), w₁))
    (opens : f.source.openStream r.remoteUrl w₁ = (.ok (some stream), w₂)) :
    f.source.stream.recorded.run f.codec.bounds ((stream, w₂), []) =
      (.ok origin, (left, calls)) := by
  obtain ⟨w₁', w₂', stream', told', opens', bounds⟩ := sized
  obtain rfl := (Prod.mk.inj (told.symm.trans told')).2
  obtain ⟨hs, rfl⟩ := Prod.mk.inj (opens.symm.trans opens')
  obtain rfl := Option.some.inj (Except.ok.inj hs)
  exact bounds

section Silence

variable {f : Fetcher W R Wr S I E} {r : Request} {w : W} {record : List (Deed R Wr S I)}

theorem told_intakes {deeds : List (Deed R Wr S I)} (h : ∀ deed ∈ deeds, deed.isIntake) :
    told deeds = [] := by
  apply List.filterMap_eq_nil_iff.mpr
  intro deed hd
  cases deed with
  | event r e => cases h _ hd
  | _ => rfl

/-- Where streaming looks too far ahead, nothing is told of decoding. -/
theorem Fetcher.decodeStream_silent (stream : S) :
    Goes f ⟨r, w⟩ record (f.decodeStream stream) (f.recorded.decodeStream stream)
      fun done outcome _ => ∀ limit, outcome = .error (.lookAheadExceeded limit) →
        told done = [] := by
  refine decoding_bind (f.rewindable_run f.codec.bounds (f.marked stream) w record) ?_ nofun
  intro deeds origin handle w₁ hb ⟨hd, _⟩
  dsimp only
  obtain ⟨⟨reply, back⟩, reset⟩ : ∃ out, handle.reset 0 = out := ⟨_, rfl⟩
  rw [show handle.reset (Rewindable.start stream).position = _ from reset]
  cases reply with
  | error e =>
    refine Goes.throw fun _ _ => ?_
    rw [List.append_nil]
    exact told_intakes hd
  | ok _ =>
    refine choosePlan_bind origin fun w₂ past _ => ?_
    refine decoding_bind (f.rewindable_run (f.codec.decode _) back w₂ past) ?_ nofun
    exact fun more image last w₃ _ _ => Goes.pure nofun

theorem Fetcher.streamSteps_silent :
    Goes f ⟨r, w⟩ record f.streamSteps f.recorded.streamSteps
      fun done outcome _ => ∀ limit, outcome = .error (.lookAheadExceeded limit) →
        told done = [.downloading r.remoteUrl] := by
  refine Goes.get_bind (Goes.call_bind (fun _ => .event r (.downloading r.remoteUrl)) rfl ?_)
  intro _ w₁ _
  refine Goes.call_bind (.openStream r.remoteUrl) rfl ?_
  intro reply w₂ _
  match reply with
  | .ok (some stream) =>
    refine Goes.bind (decodeStream_silent stream) ?_ ?_
    · rintro deeds ⟨image, plan⟩ left - -
      exact Goes.pure nofun
    · intro deeds e left silent limit he
      have hs := silent limit (congrArg Except.error (Except.error.inj he))
      rw [told_event]
      exact congrArg (List.cons _) hs
  | .ok none => exact emit_bind .unavailable fun w' => Goes.pure nofun
  | .error e =>
    refine emit_bind (.downloadFailed e.message) fun w₃ => ?_
    exact emit_bind .unavailable fun w' => Goes.pure nofun

end Silence

/-- Decoding an open stream, told by two passes over the stream itself: one that counts what it
takes, and one over all that was taken with the stream behind it. -/
inductive StreamPasses (f : Fetcher W R Wr S I E) (stream : S) (r : Request) (w : W) :
    Except (FetchFault E) (I × DecodePlan) → Request → Prop
  | noSize {left : S × W} {calls : List Intake} {e : E}
      (bounds : f.source.stream.recorded.run f.codec.bounds ((stream, w), []) =
        (.error e, (left, calls))) :
      StreamPasses f stream r w (.error (.decode e)) r
  | tooFar {left : S × W} {calls : List Intake} {origin : Size}
      (bounds : f.source.stream.recorded.run f.codec.bounds ((stream, w), []) =
        (.ok origin, (left, calls)))
      (spills : f.settings.lookAhead < (Intake.delivered calls).size) :
      StreamPasses f stream r w (.error (.lookAheadExceeded f.settings.lookAhead)) r
  | back {stream₁ : S} {w₁ w₂ : W} {calls : List Intake} {origin : Size}
      (bounds : f.source.stream.recorded.run f.codec.bounds ((stream, w), []) =
        (.ok origin, ((stream₁, w₁), calls)))
      (fits : (Intake.delivered calls).size ≤ f.settings.lookAhead)
      (told : f.observer.onEvent (r.recordOrigin origin)
        (.decoding origin (DecodePlan.choose origin r.target).factor) w₁ = ((), w₂)) :
      StreamPasses f stream r w
        (((f.source.stream.behind.run (f.codec.decode (DecodePlan.choose origin r.target).factor)
          (Intake.delivered calls, (stream₁, w₂))).1.mapError .decode).map
            (·, DecodePlan.choose origin r.target))
        (r.recordOrigin origin)

section Passes

variable {f : Fetcher W R Wr S I E} {r : Request} {w w₁ : W} {stream stream₁ : S} {origin : Size}
  {calls : List Intake} {outcome : Except (FetchFault E) (I × DecodePlan)} {left : Session W}

/-- The pass for the size is one over the stream itself. -/
theorem Fetcher.size_pass (f : Fetcher W R Wr S I E) (stream : S) (w : W) :
    ∃ reply handle stream₁ w₁ calls,
      f.rewindableStream.run f.codec.bounds (f.marked stream, w) = (reply, (handle, w₁)) ∧
      f.source.stream.recorded.run f.codec.bounds ((stream, w), []) =
        (reply, ((stream₁, w₁), calls)) ∧
      (Rewindable.attach (handle, w₁)).inner = (stream₁, w₁) ∧
      (Rewindable.attach (handle, w₁)).Onward f.settings.lookAhead (Intake.delivered calls) := by
  have mirrors := (Rewindable.first_pass f.source.stream f.settings.lookAhead).remap
    Rewindable.attach_detach
  have start := Rewindable.Onward.start (stream, w) f.settings.lookAhead
  obtain ⟨reply, ⟨handle, w₁⟩, ⟨_, calls⟩, hr, hb, rfl, onward⟩ :=
    mirrors.run f.codec.bounds (s := (f.marked stream, w)) (t := ((stream, w), [])) ⟨rfl, start⟩
  exact ⟨reply, handle, _, w₁, calls, hr, hb, rfl, onward⟩

/-- Back at the start, the pass for the image is one over all that came with the stream behind it,
whatever the world has come to in between. -/
theorem Fetcher.image_pass (f : Fetcher W R Wr S I E) {back : Rewindable S} {came : ByteArray}
    (inner : (Rewindable.attach (back, w)).inner = (stream, w))
    (ahead : (Rewindable.attach (back, w)).ahead = came)
    (tracks : (Rewindable.attach (back, w)).Tracks came) (factor : UInt32) (w₁ : W) :
    (f.rewindableStream.run (f.codec.decode factor) (back, w₁)).1 =
      (f.source.stream.behind.run (f.codec.decode factor) (came, (stream, w₁))).1 := by
  have mirrors := (Rewindable.second_pass f.source.stream).remap Rewindable.attach_detach
  have hstream : back.inner = stream := congrArg Prod.fst inner
  have moved : (Rewindable.attach (back, w₁)).Tracks came :=
    ⟨tracks.within, tracks.unmarked, tracks.marked⟩
  obtain ⟨reply, _, _, hr, hb, -⟩ := mirrors.run (f.codec.decode factor) (s := (back, w₁))
    (t := (came, (stream, w₁))) ⟨congrArg (·, w₁) hstream, ahead, came, moved⟩
  rw [rewindableStream, hr, hb]

theorem StreamDecode.passes (decode : StreamDecode f stream ⟨r, w⟩ outcome left) :
    StreamPasses f stream r w outcome left.request := by
  obtain ⟨reply, handle, stream₁, w₁, calls, hr, hb, inner, onward⟩ := f.size_pass stream w
  -- The way back is open just if what came fits.
  have spilled : ∀ {back : Rewindable S} {fault : Fault}, handle.reset 0 = (.error fault, back) →
      f.settings.lookAhead < (Intake.delivered calls).size := by
    intro back fault lost
    refine Nat.not_le.mp fun hfit => ?_
    obtain ⟨s', reset, -⟩ := onward.reset_fits hfit
    rw [Rewindable.reset_attach, lost] at reset
    cases reset
  have fits : ∀ {back : Rewindable S}, handle.reset 0 = (.ok (), back) →
      (Intake.delivered calls).size ≤ f.settings.lookAhead := by
    intro back reset
    refine Nat.not_lt.mp fun hspill => ?_
    have lost := onward.reset_spilled hspill
    rw [Rewindable.reset_attach, reset] at lost
    cases lost
  have image : ∀ {back : Rewindable S}, handle.reset 0 = (.ok (), back) → ∀ factor w₂,
      (f.rewindableStream.run (f.codec.decode factor) (back, w₂)).1 =
        (f.source.stream.behind.run (f.codec.decode factor)
          (Intake.delivered calls, (stream₁, w₂))).1 := by
    intro back reset factor w₂
    obtain ⟨s', hs, hinner, ahead, tracks⟩ := onward.reset_fits (fits reset)
    rw [Rewindable.reset_attach, reset] at hs
    obtain rfl := (Prod.mk.inj hs).2
    exact f.image_pass (hinner.trans inner) ahead tracks factor w₂
  cases decode with
  | noSize bounds =>
    obtain ⟨rfl, -⟩ := Prod.mk.inj (hr.symm.trans bounds)
    exact .noSize hb
  | tooFar bounds lost =>
    obtain ⟨rfl, hh⟩ := Prod.mk.inj (hr.symm.trans bounds)
    obtain ⟨rfl, rfl⟩ := Prod.mk.inj hh
    exact .tooFar hb (spilled lost)
  | noImage bounds reset told decode =>
    obtain ⟨rfl, hh⟩ := Prod.mk.inj (hr.symm.trans bounds)
    obtain ⟨rfl, rfl⟩ := Prod.mk.inj hh
    have back := StreamPasses.back (r := r) hb (fits reset) told
    rw [← image reset, decode] at back
    exact back
  | image bounds reset told decode =>
    obtain ⟨rfl, hh⟩ := Prod.mk.inj (hr.symm.trans bounds)
    obtain ⟨rfl, rfl⟩ := Prod.mk.inj hh
    have back := StreamPasses.back (r := r) hb (fits reset) told
    rw [← image reset, decode] at back
    exact back

end Passes

namespace StreamCourse

variable {f : Fetcher W R Wr S I E} {r : Request} {w : W} {result : FetchResult I E}
  {left : Session W} {origin : Size} {calls : List Intake}

/-- Once a size was found in a stream, streaming goes by passes over that stream. -/
theorem sized (course : StreamCourse f r w result left) {rest : S × W}
    (sized : f.StreamSized r w origin calls rest) :
    ∃ (stream : S) (w₂ : W) (outcome : Except (FetchFault E) (I × DecodePlan)),
      f.source.stream.recorded.run f.codec.bounds ((stream, w₂), []) =
        (.ok origin, (rest, calls)) ∧
      StreamPasses f stream r w₂ outcome left.request ∧
      result = outcome.map fun (image, plan) => some ⟨image, .stream, plan⟩ := by
  cases course with
  | missing told opens unopened =>
    obtain ⟨w₁, w₂, stream, told', opens', -⟩ := sized
    obtain rfl := (Prod.mk.inj (told.symm.trans told')).2
    obtain ⟨rfl, -⟩ := Prod.mk.inj (opens.symm.trans opens')
    exact absurd rfl (unopened stream)
  | @opened _ _ stream outcome _ told opens decode =>
    exact ⟨stream, _, outcome, sized.pass told opens, decode.passes, rfl⟩

theorem exceeds (course : StreamCourse f r w result left) {limit : Nat}
    (h : result = .error (.lookAheadExceeded limit)) :
    limit = f.settings.lookAhead ∧ left.request = r ∧ ∃ origin calls rest,
      f.StreamSized r w origin calls rest ∧ limit < (Intake.delivered calls).size := by
  cases course with
  | missing told opens unopened => cases h
  | opened told opens decode =>
    have passes := decode.passes
    generalize left.request = after at passes
    cases passes with
    | noSize bounds => cases h
    | tooFar bounds spills =>
      cases h
      exact ⟨rfl, rfl, _, _, _, ⟨_, _, _, told, opens, bounds⟩, spills⟩
    | @back stream₁ w₁ w₂ calls origin bounds fits told =>
      generalize (f.source.stream.behind.run _ (Intake.delivered calls, (stream₁, w₂))).1 = image
        at h
      cases image with
      | ok image => cases h
      | error e => cases h

theorem spilled (course : StreamCourse f r w result left) {rest : S × W}
    (sized : f.StreamSized r w origin calls rest)
    (spills : f.settings.lookAhead < (Intake.delivered calls).size) :
    result = .error (.lookAheadExceeded f.settings.lookAhead) := by
  obtain ⟨stream, w₂, outcome, bounds, passes, rfl⟩ := course.sized sized
  generalize left.request = after at passes
  cases passes with
  | noSize bounds' => cases bounds.symm.trans bounds'
  | tooFar bounds' spills' => rfl
  | back bounds' fits told =>
    cases bounds.symm.trans bounds'
    exact absurd spills (Nat.not_lt.mpr fits)

theorem decoded (course : StreamCourse f r w result left) {stream : S} {w₁ : W}
    (sized : f.StreamSized r w origin calls (stream, w₁))
    (fits : (Intake.delivered calls).size ≤ f.settings.lookAhead) :
    ∃ w₂, f.observer.onEvent (r.recordOrigin origin)
        (.decoding origin (DecodePlan.choose origin r.target).factor) w₁ = ((), w₂) ∧
      left.request = r.recordOrigin origin ∧
      result = (((f.source.stream.behind.run
          (f.codec.decode (DecodePlan.choose origin r.target).factor)
          (Intake.delivered calls, (stream, w₂))).1.mapError .decode).map fun image =>
            some ⟨image, .stream, DecodePlan.choose origin r.target⟩) := by
  obtain ⟨opened, w₀, outcome, bounds, passes, rfl⟩ := course.sized sized
  generalize left.request = after at passes
  cases passes with
  | noSize bounds' => cases bounds.symm.trans bounds'
  | tooFar bounds' spills =>
    cases bounds.symm.trans bounds'
    exact absurd fits (Nat.not_le.mpr spills)
  | back bounds' fits' told =>
    cases bounds.symm.trans bounds'
    refine ⟨_, told, rfl, ?_⟩
    generalize (f.source.stream.behind.run _ _).1 = image
    cases image with
    | ok image => rfl
    | error e => rfl

end StreamCourse

/-- Streaming looks too far ahead just if a size was found in a stream by calls that took more than
the settings allow. -/
theorem Fetcher.exceeds_iff (f : Fetcher W R Wr S I E) (r : Request) (w : W) (limit : Nat) :
    (f.fetchStreaming r w).1.1 = .error (.lookAheadExceeded limit) ↔
      limit = f.settings.lookAhead ∧ ∃ origin calls left, f.StreamSized r w origin calls left ∧
        limit < (Intake.delivered calls).size := by
  obtain ⟨result, left, hf, -, course, -⟩ := f.streaming_course r w
  rw [hf]
  constructor
  · intro h
    obtain ⟨hl, -, sized⟩ := course.exceeds h
    exact ⟨hl, sized⟩
  · intro h
    obtain ⟨rfl, origin, calls, rest, sized, spills⟩ := h
    exact course.spilled sized spills

/-- Streaming fails for having looked too far ahead just if the source gave a stream, the codec
found the size in it and took more bytes of it than the settings allow; then the request stays as it
was and nothing is told of decoding. If the codec took no more than that, the image is what it makes
of all these bytes with the stream behind them: what it is handed, and after that what it left in
front, are all bytes that ever came from the stream. -/
theorem look_ahead_exact (f : Fetcher W R Wr S I E) (r : Request) (w : W) :
    (∀ limit, (f.fetchStreaming r w).1.1 = .error (.lookAheadExceeded limit) ↔
      limit = f.settings.lookAhead ∧ ∃ origin calls left, f.StreamSized r w origin calls left ∧
        limit < (Intake.delivered calls).size) ∧
    (∀ limit, (f.fetchStreaming r w).1.1 = .error (.lookAheadExceeded limit) →
      (f.fetchStreaming r w).1.2 = r ∧ told (f.streamTrace r w) = [.downloading r.remoteUrl]) ∧
    ∀ origin calls stream w₁, f.StreamSized r w origin calls (stream, w₁) →
      (Intake.delivered calls).size ≤ f.settings.lookAhead →
      ∃ w₂ decoded front rest later handed,
        f.observer.onEvent (r.recordOrigin origin)
          (.decoding origin (DecodePlan.choose origin r.target).factor) w₁ = ((), w₂) ∧
        f.source.stream.recorded.behind.recorded.run
            (f.codec.decode (DecodePlan.choose origin r.target).factor)
            ((Intake.delivered calls, ((stream, w₂), calls)), []) =
          (decoded, ((front, (rest, later)), handed)) ∧
        calls <+: later ∧ Intake.delivered handed ++ front = Intake.delivered later ∧
        (f.fetchStreaming r w).1 = ((decoded.mapError .decode).map fun image =>
          some ⟨image, .stream, DecodePlan.choose origin r.target⟩, r.recordOrigin origin) := by
  have silent : ∀ limit, (f.fetchStreaming r w).1.1 = .error (.lookAheadExceeded limit) →
      told (f.streamTrace r w) = [.downloading r.remoteUrl] := streaming_of_goes streamSteps_silent
  refine ⟨f.exceeds_iff r w, ?_⟩
  obtain ⟨result, left, hf, -, course, -⟩ := f.streaming_course r w
  rw [hf] at silent ⊢
  refine ⟨fun limit h => ?_, ?_⟩
  · exact ⟨(course.exceeds h).2.1, silent limit h⟩
  · intro origin calls stream w₁ sized fits
    obtain ⟨w₂, told, hr, rfl⟩ := course.decoded sized fits
    obtain ⟨decoded, front, rest, later, handed, hrun, hdecoded, hlater, hall⟩ :=
      f.source.stream.run_behind (f.codec.decode (DecodePlan.choose origin r.target).factor) calls
        (stream, w₂)
    refine ⟨w₂, decoded, front, rest, later, handed, told, hrun, hlater, hall, ?_⟩
    rw [hdecoded, hr]

namespace Rehearsal

def sighted (limit : Nat) : Fetcher (World MapStore Tile) MapEntry MapWriter Stream Tile Fault :=
  { mapFetcher with settings := ⟨true, limit⟩ }

def tileStreamed : World MapStore Tile :=
  (World.start MapStore.empty ⟨0, 0⟩).serve "tile" ⟨none, none, some (.ofBytes smallTile)⟩

theorem tile_sized (limit : Nat) : ∃ calls stream w,
    (sighted limit).StreamSized thumbnail tileStreamed ⟨4, 4⟩ calls (stream, w) ∧
      (Intake.delivered calls).size = 12 := by
  obtain ⟨⟨reply, ⟨stream, w⟩, calls⟩, h⟩ : ∃ out,
      World.source.stream.recorded.run Tile.codec.bounds ((Stream.ofBytes smallTile,
        (World.source.openStream "tile"
          (World.recorder.onEvent thumbnail (.downloading "tile") tileStreamed).2).2), []) = out :=
    ⟨_, rfl⟩
  have hreply : reply.toOption = some ⟨4, 4⟩ :=
    (congrArg (fun out => out.1.toOption) h).symm.trans (by decide +kernel)
  have hsize : (Intake.delivered calls).size = 12 :=
    (congrArg (fun out => (Intake.delivered out.2.2).size) h).symm.trans (by decide +kernel)
  cases reply with
  | ok size =>
    obtain rfl := Option.some.inj hreply
    exact ⟨calls, stream, w, ⟨_, _, _, rfl, rfl, h⟩, hsize⟩
  | error e => cases hreply

end Rehearsal

open Rehearsal in
/-- To look eleven bytes ahead is not enough to find the size of a tile, and twelve are. -/
theorem tile_look_ahead :
    ((sighted 11).fetchStreaming thumbnail tileStreamed).1 =
        (.error (.lookAheadExceeded 11), thumbnail) ∧
      told ((sighted 11).streamTrace thumbnail tileStreamed) = [.downloading "tile"] ∧
      ∃ (decoded : Except Fault Tile) (front : ByteArray) (later handed : List Intake),
        Intake.delivered handed ++ front = Intake.delivered later ∧
        ((sighted 12).fetchStreaming thumbnail tileStreamed).1 =
          ((decoded.mapError .decode).map fun image =>
            some ⟨image, .stream, DecodePlan.choose ⟨4, 4⟩ ⟨1, 1⟩⟩,
            thumbnail.recordOrigin ⟨4, 4⟩) := by
  obtain ⟨exceeds, untouched, -⟩ := look_ahead_exact (sighted 11) thumbnail tileStreamed
  obtain ⟨-, -, decodes⟩ := look_ahead_exact (sighted 12) thumbnail tileStreamed
  obtain ⟨calls, stream, w, sized, hsize⟩ := tile_sized 11
  have result := (exceeds 11).mpr ⟨rfl, _, _, _, sized, by omega⟩
  obtain ⟨request, silent⟩ := untouched 11 result
  obtain ⟨calls, stream, w, sized, hsize⟩ := tile_sized 12
  obtain ⟨-, decoded, front, -, later, handed, -, -, -, hall, image⟩ :=
    decodes _ _ _ _ sized (Nat.le_of_eq hsize)
  exact ⟨Prod.ext result request, silent, decoded, front, later, handed, hall, image⟩

end ImageCache
