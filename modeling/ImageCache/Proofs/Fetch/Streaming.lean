import ImageCache.Proofs.Fetch.Serving
import ImageCache.Proofs.Fetch.StreamCourse
import ImageCache.Proofs.Reading.Script

namespace ImageCache

open Fetcher

variable {W R Wr S I E : Type}

/-- In these worlds the source serves the bytes at the address as a stream, too. The relation tells
what lies ahead of an open stream. -/
structure Fetcher.ServesStream (f : Fetcher W R Wr S I E) (url : String) (bytes : ByteArray)
    (serving : W → Prop) (flow : S × W → ByteArray → Prop) : Prop where
  stays : ∀ {w w' : W} {r : Request} {e : Event}, serving w → f.Does w (.event r e) w' → serving w'
  opens : ∀ {w w' : W} {reply : Except Fault (Option S)}, serving w →
    f.Does w (.openStream url reply) w' → ∃ stream, reply = .ok (some stream) ∧
      flow (stream, w') bytes
  delivers : f.source.stream.Delivers flow
  keeps : ∀ {stream : S} {w w' : W} {ahead : ByteArray} {r : Request} {e : Event},
    flow (stream, w) ahead → f.Does w (.event r e) w' → flow (stream, w') ahead

variable {f : Fetcher W R Wr S I E} {v : StoreView W R Wr} {j j' : Judgement I E} {w w' : W}
  {r : Request} {bytes : ByteArray} {serving : W → Prop} {flow : S × W → ByteArray → Prop}

/-- What lies ahead of a stream that is read through its window. -/
def Windowed (flow : S × W → ByteArray → Prop) (whole : ByteArray) (s : Rewindable S × W)
    (ahead : ByteArray) : Prop :=
  Rewindable.Ahead flow whole (Rewindable.attach s) ahead

theorem Fetcher.ServesStream.windowed (h : f.ServesStream r.remoteUrl bytes serving flow)
    (whole : ByteArray) : f.rewindableStream.Delivers (Windowed flow whole) :=
  (Rewindable.delivers h.delivers).remap Rewindable.attach_detach

theorem Fetcher.ServesStream.back (h : f.ServesStream r.remoteUrl bytes serving flow)
    {whole ahead : ByteArray} {handle back : Rewindable S} {w₁ w₂ : W} {request : Request}
    {e : Event} (window : Windowed flow whole (handle, w₁) ahead)
    (reset : handle.reset 0 = (.ok (), back))
    (told : f.observer.onEvent request e w₁ = ((), w₂)) :
    Windowed flow whole (back, w₂) whole := by
  have moved : (Rewindable.attach (handle, w₁)).reset 0 =
      (.ok (), Rewindable.attach (back, w₁)) := by
    rw [Rewindable.reset_attach, reset]
  -- If the position is still held, the whole is ahead again; the event in between takes nothing.
  rcases Rewindable.reset_start window with ⟨s', hr, hs'⟩ | hr
  · obtain rfl : Rewindable.attach (back, w₁) = s' := (Prod.mk.inj (moved.symm.trans hr)).2
    obtain ⟨rest, hrest, ha, hm⟩ := hs'
    exact ⟨rest, h.keeps hrest told, ha, hm⟩
  · cases moved.symm.trans hr

/-- Streaming comes to the verdict on the bytes of the stream, if it does not go back too far. -/
theorem StreamDecode.verdict (streams : f.codec.Streams j)
    (h : f.ServesStream r.remoteUrl bytes serving flow) {stream : S}
    {outcome : Except (FetchFault E) (I × DecodePlan)} {left : Session W}
    (ahead : flow (stream, w) bytes) (decode : StreamDecode f stream ⟨r, w⟩ outcome left) :
    outcome = .error (.lookAheadExceeded f.settings.lookAhead) ∨
      outcome = (j.verdict r.target bytes).mapError .decode ∧
        left.request = j.record bytes r := by
  have delivers := h.windowed bytes
  have start : Windowed flow bytes (f.marked stream, w) bytes :=
    Rewindable.ahead_marked ahead f.settings.lookAhead
  have hsize := streams.bounds delivers start
  obtain ⟨rest, window⟩ := delivers.run f.codec.bounds start
  cases decode with
  | noSize bounds =>
    rw [bounds] at hsize
    rw [Judgement.verdict_noSize hsize.symm, Judgement.record_noSize hsize.symm]
    exact .inr ⟨rfl, rfl⟩
  | tooFar bounds lost => exact .inl rfl
  | noImage bounds reset told image =>
    rw [bounds] at hsize window
    have himage := (streams.decode _ delivers (h.back window reset told)).symm.trans
      (congrArg (·.1) image)
    rw [Judgement.verdict_noImage hsize.symm himage, Judgement.record_size hsize.symm]
    exact .inr ⟨rfl, rfl⟩
  | image bounds reset told decode =>
    rw [bounds] at hsize window
    have himage := (streams.decode _ delivers (h.back window reset told)).symm.trans
      (congrArg (·.1) decode)
    rw [Judgement.verdict_image hsize.symm himage, Judgement.record_size hsize.symm]
    exact .inr ⟨rfl, rfl⟩

/-- Streaming asks nothing of the store, and if the source serves the bytes it comes to the verdict
on them, unless it goes back too far. -/
theorem streaming_served (streams : f.codec.Streams j)
    (serves : f.ServesStream r.remoteUrl bytes serving flow) (hw : serving w) :
    ∃ (result : FetchResult I E) (left : Session W),
      f.fetchStreaming r w = ((result, left.request), left.world) ∧
      (result = .error (.lookAheadExceeded f.settings.lookAhead) ∨
        result = j.result r bytes .stream ∧ left.request = j.record bytes r) := by
  obtain ⟨result, left, hf, -, course, -⟩ := f.streaming_course r w
  refine ⟨result, left, hf, ?_⟩
  cases course with
  | missing told opens unopened =>
    obtain ⟨stream, hr, -⟩ := serves.opens (serves.stays hw told) opens
    exact absurd hr (unopened stream)
  | opened told opens decode =>
    obtain ⟨stream, hr, ahead⟩ := serves.opens (serves.stays hw told) opens
    cases hr
    rcases decode.verdict streams serves ahead with rfl | ⟨rfl, hr⟩
    · exact .inl rfl
    · refine .inr ⟨?_, hr⟩
      rw [Judgement.result]
      cases j.verdict r.target bytes with
      | error e => rfl
      | ok found => rfl

theorem toOption_eq {ε ε' α : Type} {x : Except ε α} {y : Except ε' α}
    (h : x.toOption = y.toOption) :
    (∃ a, x = .ok a ∧ y = .ok a) ∨ ∃ e e', x = .error e ∧ y = .error e' := by
  match x, y with
  | .ok a, .ok b => exact .inl ⟨a, rfl, congrArg _ (Option.some.inj h).symm⟩
  | .error e, .error e' => exact .inr ⟨e, e', rfl, rfl⟩
  | .ok a, .error e => cases h
  | .error e, .ok b => cases h

/-- Where two judgements find the same, or both nothing, they come to the same image, plan and size.
-/
theorem Judgement.result_agrees {p q : Provenance}
    (size : (j.size bytes).toOption = (j'.size bytes).toOption)
    (image : ∀ factor, (j.image factor bytes).toOption = (j'.image factor bytes).toOption) :
    (∃ image plan, j.result r bytes p = .ok (some ⟨image, p, plan⟩) ∧
        j'.result r bytes q = .ok (some ⟨image, q, plan⟩) ∧
        (j.record bytes r).originSize? = some plan.origin ∧
        (j'.record bytes r).originSize? = some plan.origin) ∨
      ∃ e e', j.result r bytes p = .error (.decode e) ∧
        j'.result r bytes q = .error (.decode e') := by
  simp only [result]
  rcases toOption_eq size with ⟨origin, hs, hs'⟩ | ⟨e, e', hs, hs'⟩
  · rcases toOption_eq (image (DecodePlan.choose origin r.target).factor) with
      ⟨found, hi, hi'⟩ | ⟨e, e', hi, hi'⟩
    · rw [verdict_image hs hi, verdict_image hs' hi', record_size hs, record_size hs']
      exact .inl ⟨found, DecodePlan.choose origin r.target, rfl, rfl, rfl, rfl⟩
    · rw [verdict_noImage hs hi, verdict_noImage hs' hi']
      exact .inr ⟨e, e', rfl, rfl⟩
  · rw [verdict_noSize hs, verdict_noSize hs']
    exact .inr ⟨e, e', rfl, rfl⟩

/-- Let the source serve the bytes at the request's address, as a transfer and as a stream, and let
the store have nothing for the request and nobody hold its key. Let the codec find the same in
streams and in entries. Then streaming asks nothing of the store. Unless it has to go back too far,
it and a fetch come to the same image under the same plan and record the same size on the request,
or the codec fails in both. -/
theorem streaming_agrees (h : Dependable f v) (streams : f.codec.Streams j)
    (judges : Judges f v j')
    (size : ∀ bytes, (j.size bytes).toOption = (j'.size bytes).toOption)
    (image : ∀ factor bytes, (j.image factor bytes).toOption = (j'.image factor bytes).toOption)
    (sends : f.Serves r.remoteUrl bytes serving)
    (pours : f.ServesStream r.remoteUrl bytes serving flow) (hw : serving w) (hw' : serving w')
    (sound : v.sound w') (missing : ∀ place ∈ r.places, v.entry w' place.1 = none)
    (free : ¬ v.held w' r.fileKey) :
    (∀ deed ∈ f.streamTrace r w, deed.asksStore = false) ∧
      ((f.fetchStreaming r w).1.1 = .error (.lookAheadExceeded f.settings.lookAhead) ∨
        (∃ image plan, (f.fetchStreaming r w).1.1 = .ok (some ⟨image, .stream, plan⟩) ∧
          (f.fetch r w').1.1 = .ok (some ⟨image, .network, plan⟩) ∧
          (f.fetchStreaming r w).1.2.originSize? = some plan.origin ∧
          (f.fetch r w').1.2.originSize? = some plan.origin) ∨
        ∃ e e', (f.fetchStreaming r w).1.1 = .error (.decode e) ∧
          (f.fetch r w').1.1 = .error (.decode e')) := by
  obtain ⟨-, -, -, -, -, storeless⟩ := f.streaming_course r w
  refine ⟨storeless, ?_⟩
  obtain ⟨result, left, hs, streamed⟩ := streaming_served streams pours hw
  obtain ⟨result', left', hf, -, -, -, shows⟩ :=
    fetch_served h sound (v.search_absent missing) free sends hw'
  obtain ⟨rfl, hr'⟩ := shows.verdict h judges
  rw [hs, hf]
  rcases streamed with rfl | ⟨rfl, hr⟩
  · exact .inl rfl
  rw [hr, hr']
  exact .inr (Judgement.result_agrees (size bytes) fun factor => image factor bytes)

namespace Rehearsal

/-- No call to the stream fails or comes away with nothing before the end, and these bytes lie
ahead. -/
structure Stream.Flows (s : Stream) (ahead : ByteArray) : Prop where
  wall : s.wall = none
  cues : ∀ cue ∈ s.cues ++ s.refrain, ∃ k, cue = .atMost k ∧ 0 < k
  ahead : ahead = s.bytes.extract s.position s.bytes.size

namespace Stream

variable {s : Stream} {ahead : ByteArray}

theorem Flows.falters (h : s.Flows ahead) : s.Falters ahead 0 where
  wall := h.wall
  cues cue hc := .inr (h.cues cue (List.mem_append_left _ hc))
  refrain cue hc := h.cues cue (List.mem_append_right _ hc)
  interruptions := by
    refine (List.length_eq_zero_iff.mpr (List.filter_eq_nil_iff.mpr fun cue hc => ?_)).symm
    obtain ⟨_, rfl, -⟩ := h.cues cue (List.mem_append_left _ hc)
    exact nofun
  ahead := h.ahead

theorem Falters.flows (h : s.Falters ahead 0) : s.Flows ahead where
  wall := h.wall
  cues := by
    have quiet := List.filter_eq_nil_iff.mp (List.length_eq_zero_iff.mp h.interruptions.symm)
    refine List.forall_mem_append.mpr ⟨fun cue hc => ?_, h.refrain⟩
    exact (h.cues cue hc).resolve_left (quiet cue hc)
  ahead := h.ahead

/-- Whatever the script says of the sizes of pieces, a stream hands out its bytes. -/
theorem delivers {T I : Type} :
    (World.source (T := T) (I := I)).stream.Delivers fun t ahead => t.1.Flows ahead where
  read := by
    intro t ahead flows n
    obtain ⟨s, w⟩ := t
    rcases flows.falters.read n with ⟨piece, rest, s', hr, hp, hs'⟩ | ⟨_, _, _, _, _, hlt, _⟩
    · refine ⟨piece, rest, (s', w), ?_, hp, hs'.flows⟩
      simp only [World.source, hr]
    · exact absurd hlt (Nat.not_lt_zero _)
  bound flows := flows.falters.bound

end Stream

theorem tileFetcher_streams (s : DirectoryStore) {url : String} {served : Served} {stream : Stream}
    (h : served.openStream = .ok (some stream)) (flows : stream.Flows bytes) :
    (tileFetcher s).ServesStream url bytes (fun w => w.servedAt url = served)
      fun t ahead => t.1.Flows ahead where
  stays hw does := by
    rw [← hw, World.servedAt, tileFetcher_served s does, World.servedAt]
  opens := by
    rintro w w' reply hw does
    obtain rfl : (w.servedAt url).openStream = reply := congrArg (·.1) does
    exact ⟨stream, hw.symm ▸ h, flows⟩
  delivers := Stream.delivers
  keeps flows _ := flows

end Rehearsal

open Rehearsal in
theorem thumbnail_streamed :
    (∀ deed ∈ (tileFetcher patient).streamTrace thumbnail oneTile, deed.asksStore = false) ∧
      ((tileFetcher patient).fetchStreaming thumbnail oneTile).1.1 =
        .ok (some ⟨⟨1, 1, 4, 2, 33⟩, .stream, ⟨⟨4, 4⟩, ⟨1, 1⟩, 4⟩⟩) ∧
      ((tileFetcher patient).fetch thumbnail oneTile).1.1 =
        .ok (some ⟨⟨1, 1, 4, 2, 33⟩, .network, ⟨⟨4, 4⟩, ⟨1, 1⟩, 4⟩⟩) ∧
      ((tileFetcher patient).fetch thumbnail oneTile).1.2.originSize? = some ⟨4, 4⟩ := by
  have streamed : ((tileFetcher patient).fetchStreaming thumbnail oneTile).1.1 =
      .ok (some ⟨⟨1, 1, 4, 2, 33⟩, .stream, ⟨⟨4, 4⟩, ⟨1, 1⟩, 4⟩⟩) := by cbv
  have flows : dripping.Flows smallTile := ⟨rfl, by simp [dripping], by cbv⟩
  have served := oneTile_served (r := thumbnail) rfl
  obtain ⟨storeless, outcome⟩ := streaming_agrees oneTile_dependable Tile.codec_streams
    oneTile_judges (fun _ => rfl) (fun _ _ => rfl) (r := thumbnail)
    (oneTile_serves "tile") (tileFetcher_streams patient rfl flows) served served oneTile_bare.1
    (fun place _ => (oneTile_bare.2 place.1).1) (oneTile_bare.2 thumbnail.fileKey).2
  refine ⟨storeless, streamed, ?_⟩
  rw [streamed] at outcome
  rcases outcome with h | ⟨image, plan, hs, hf, -, ho⟩ | ⟨e, e', h, -⟩
  · cases h
  · obtain ⟨rfl, -, rfl⟩ := Fetched.mk.inj (Option.some.inj (Except.ok.inj hs))
    exact ⟨hf, ho⟩
  · cases h

end ImageCache
