import ImageCache.Proofs.Fetch.Perusal
import ImageCache.Proofs.Fetch.Talk

namespace ImageCache

open Fetcher

variable {W R Wr S I E α β : Type}

namespace Fetcher

variable {f : Fetcher W R Wr S I E} {r : Request} {w : W} {record : List (Deed R Wr S I)}

theorem emit_bind (event : Event) {next : FetchM W E β}
    {recordedNext : FetchM (W × List (Deed R Wr S I)) E β}
    {χ : List (Deed R Wr S I) → Except (FetchFault E) β → Session W → Prop}
    (h : ∀ w', Goes f ⟨r, w'⟩ (record ++ [.event r event]) next recordedNext
      fun more => χ (.event r event :: more)) :
    Goes f ⟨r, w⟩ record (f.emit event >>= fun _ => next)
      (f.recorded.emit event >>= fun _ => recordedNext) χ :=
  Goes.call_bind (fun _ => .event r event) rfl fun _ w' _ => h w'

theorem failStore_bind (e : Fault) {next : α → FetchM W E β}
    {recordedNext : α → FetchM (W × List (Deed R Wr S I)) E β}
    {χ : List (Deed R Wr S I) → Except (FetchFault E) β → Session W → Prop}
    (h : ∀ w', χ [.notice (.storeFault e)] (.error (.store e)) ⟨r, w'⟩) :
    Goes f ⟨r, w⟩ record (f.failStore e >>= next) (f.recorded.failStore e >>= recordedNext) χ := by
  simp only [failStore, bind_assoc]
  exact Goes.call_bind (fun _ => .notice (.storeFault e)) rfl fun _ w' _ => Goes.throw_bind (h w')

theorem failStore_goes (e : Fault)
    {χ : List (Deed R Wr S I) → Except (FetchFault E) α → Session W → Prop}
    (h : ∀ w', χ [.notice (.storeFault e)] (.error (.store e)) ⟨r, w'⟩) :
    Goes f ⟨r, w⟩ record (f.failStore e) (f.recorded.failStore e) χ := by
  rw [← bind_pure (f.failStore e), ← bind_pure (f.recorded.failStore e)]
  exact failStore_bind e h

theorem failDecode_bind (e : E) {next : α → FetchM W E β}
    {recordedNext : α → FetchM (W × List (Deed R Wr S I)) E β}
    {χ : List (Deed R Wr S I) → Except (FetchFault E) β → Session W → Prop}
    (h : ∀ w', χ [.notice .decodeFailed] (.error (.decode e)) ⟨r, w'⟩) :
    Goes f ⟨r, w⟩ record (f.failDecode e >>= next) (f.recorded.failDecode e >>= recordedNext)
      χ := by
  simp only [failDecode, bind_assoc]
  exact Goes.call_bind (fun _ => .notice .decodeFailed) rfl fun _ w' _ => Goes.throw_bind (h w')

/-- A call to the store that has to succeed is one deed, with a notice behind it if it does not. -/
theorem fromStore_bind (deed : Except Fault α → Deed R Wr S I) {op : StateM W (Except Fault α)}
    {next : α → FetchM W E β} {recordedNext : α → FetchM (W × List (Deed R Wr S I)) E β}
    {χ : List (Deed R Wr S I) → Except (FetchFault E) β → Session W → Prop}
    (does : f.Does w (deed (op w).1) (op w).2)
    (ok : ∀ a w', f.Does w (deed (.ok a)) w' →
      Goes f ⟨r, w'⟩ (record ++ [deed (.ok a)]) (next a) (recordedNext a)
        fun more => χ (deed (.ok a) :: more))
    (error : ∀ e w', χ [deed (.error e), .notice (.storeFault e)] (.error (.store e)) ⟨r, w'⟩) :
    Goes f ⟨r, w⟩ record (f.fromStore op >>= next)
      (f.recorded.fromStore (noted deed op) >>= recordedNext) χ := by
  simp only [fromStore, bind_assoc]
  refine Goes.call_bind deed does ?_
  intro reply w' done
  cases reply with
  | ok a =>
    simp only [pure_bind]
    exact ok a w' done
  | error e => exact failStore_bind e fun w'' => error e w''

/-- A reply that came before, taken as that of a call to the store. -/
theorem fromReply_bind (reply : Except Fault α) {next : α → FetchM W E β}
    {recordedNext : α → FetchM (W × List (Deed R Wr S I)) E β}
    {χ : List (Deed R Wr S I) → Except (FetchFault E) β → Session W → Prop}
    (ok : ∀ a, reply = .ok a → Goes f ⟨r, w⟩ record (next a) (recordedNext a) χ)
    (error : ∀ e w', reply = .error e →
      χ [.notice (.storeFault e)] (.error (.store e)) ⟨r, w'⟩) :
    Goes f ⟨r, w⟩ record (f.fromStore (pure reply) >>= next)
      (f.recorded.fromStore (pure reply) >>= recordedNext) χ := by
  simp only [fromStore, bind_assoc]
  refine Goes.act_bind rfl (by rw [List.append_nil]; rfl) (leads_nil f w) ?_
  cases reply with
  | ok a =>
    simp only [pure_bind, List.append_nil]
    exact ok a rfl
  | error e => exact failStore_bind e fun w' => error e w' rfl

theorem fromStore_goes (deed : Except Fault α → Deed R Wr S I) {op : StateM W (Except Fault α)}
    {χ : List (Deed R Wr S I) → Except (FetchFault E) α → Session W → Prop}
    (does : f.Does w (deed (op w).1) (op w).2)
    (ok : ∀ a w', χ [deed (.ok a)] (.ok a) ⟨r, w'⟩)
    (error : ∀ e w', χ [deed (.error e), .notice (.storeFault e)] (.error (.store e)) ⟨r, w'⟩) :
    Goes f ⟨r, w⟩ record (f.fromStore op) (f.recorded.fromStore (noted deed op)) χ := by
  rw [← bind_pure (f.fromStore op), ← bind_pure (f.recorded.fromStore (noted deed op))]
  exact fromStore_bind deed does (fun a w' _ => Goes.pure (ok a w')) error

end Fetcher

/-- Looking for one of the tagged renditions: the store is asked for each until it has one. -/
inductive Scan (r : Request) : List String → List (Deed R Wr S I) →
    Except (FetchFault E) (Option (R × Provenance)) → Prop
  | spent : Scan r [] [] (.ok none)
  | fault (tag : String) (rest : List String) (e : Fault) :
      Scan r (tag :: rest) [.read (r.renditionKey tag) (.error e), .notice (.storeFault e)]
        (.error (.store e))
  | hit (tag : String) (rest : List String) (entry : R) :
      Scan r (tag :: rest)
        [.read (r.renditionKey tag) (.ok (some entry)), .event r (.reuseHit tag)]
        (.ok (some (entry, .reuse tag)))
  | miss {tag : String} {rest : List String} {deeds : List (Deed R Wr S I)}
      {outcome : Except (FetchFault E) (Option (R × Provenance))} (h : Scan r rest deeds outcome) :
      Scan r (tag :: rest)
        (.read (r.renditionKey tag) (.ok none) :: .event r (.reuseMiss tag (r.renditionKey tag)) ::
          deeds) outcome

inductive Look (r : Request) : List (Deed R Wr S I) →
    Except (FetchFault E) (Option (R × Provenance)) → Prop
  | fault (e : Fault) :
      Look r [.read r.fileKey (.error e), .notice (.storeFault e)] (.error (.store e))
  | hit (entry : R) :
      Look r [.read r.fileKey (.ok (some entry)), .event r .diskHit]
        (.ok (some (entry, .diskExact)))
  | scan {deeds : List (Deed R Wr S I)} {outcome : Except (FetchFault E) (Option (R × Provenance))}
      (h : Scan r r.reuseTags deeds outcome) :
      Look r (.read r.fileKey (.ok none) :: deeds) outcome

namespace Fetcher

variable {f : Fetcher W R Wr S I E} {r : Request} {w : W} {record : List (Deed R Wr S I)}

theorem scanReuse_goes (tags : List String) :
    Goes f ⟨r, w⟩ record (f.scanReuse tags) (f.recorded.scanReuse tags) fun done outcome left =>
      Scan r tags done outcome ∧ ∃ w', left = ⟨r, w'⟩ := by
  induction tags generalizing w record with
  | nil => exact Goes.pure ⟨.spent, w, rfl⟩
  | cons tag rest ih =>
    simp only [scanReuse]
    refine Goes.get_bind (fromStore_bind (.read (r.renditionKey tag)) rfl ?_ ?_)
    · intro found w' _
      cases found with
      | some entry =>
        exact emit_bind (.reuseHit tag) fun w'' => Goes.pure ⟨.hit tag rest entry, w'', rfl⟩
      | none =>
        refine emit_bind (.reuseMiss tag (r.renditionKey tag)) fun w'' => ih.mono ?_
        rintro deeds outcome _ - ⟨hs, hw⟩
        exact ⟨.miss hs, hw⟩
    · exact fun e w' => ⟨.fault tag rest e, w', rfl⟩

theorem readCached_goes :
    Goes f ⟨r, w⟩ record f.readCached f.recorded.readCached fun done outcome left =>
      Look r done outcome ∧ ∃ w', left = ⟨r, w'⟩ := by
  refine Goes.get_bind (fromStore_bind (.read r.fileKey) rfl ?_ ?_)
  · intro found w' _
    cases found with
    | some entry => exact emit_bind .diskHit fun w'' => Goes.pure ⟨.hit entry, w'', rfl⟩
    | none =>
      refine (scanReuse_goes r.reuseTags).mono ?_
      rintro deeds outcome _ - ⟨hs, hw⟩
      exact ⟨.scan hs, hw⟩
  · exact fun e w' => ⟨.fault e, w', rfl⟩

end Fetcher

/-- A transfer into a writer: what was said between source and sink, how the source ended, and the
handle that was left. -/
inductive Sending (url : String) (writer : Wr) : List (Deed R Wr S I) → Talk →
    Except Fault Unit → Wr → Prop
  | intro {program : Transfer} {talk : Talk} {result : Except Fault Unit}
      {deeds : List (Deed R Wr S I)} {last : Wr} (plays : program.Plays talk result)
      (conveys : Conveys writer talk deeds last) :
      Sending url writer (.transfer url program :: deeds) talk result last

def abortNotice : Except Fault Unit → List (Deed R Wr S I)
  | .ok () => []
  | .error e => [.notice (.abortFailed e)]

inductive Ending (r : Request) (talk : Talk) (last : Wr) : Except Fault Unit →
    List (Deed R Wr S I) → Except (FetchFault E) (Option R) → Prop
  | uncommitted (e : Fault) :
      Ending r talk last (.ok ()) [.commit last (.error e), .notice (.storeFault e)]
        (.error (.store e))
  | unread (e : Fault) :
      Ending r talk last (.ok ())
        [.commit last (.ok ()), .event r (.committed (Talk.total talk)),
          .read r.fileKey (.error e), .notice (.storeFault e)] (.error (.store e))
  | committed (found : Option R) :
      Ending r talk last (.ok ())
        [.commit last (.ok ()), .event r (.committed (Talk.total talk)),
          .read r.fileKey (.ok found)] (.ok found)
  | refused (e : Fault) (reply : Except Fault Unit) (h : Talk.refused talk = true) :
      Ending r talk last (.error e)
        (.abort last reply :: (abortNotice reply ++ [.notice (.storeFault e)])) (.error (.store e))
  | failed (e : Fault) (reply : Except Fault Unit) (h : Talk.refused talk = false) :
      Ending r talk last (.error e)
        (.abort last reply :: (abortNotice reply ++ [.event r (.downloadFailed e.message)]))
        (.ok none)

/-- A download, from the first event to what is read back. -/
inductive Download (r : Request) : List (Deed R Wr S I) → Except (FetchFault E) (Option R) → Prop
  | unstaged (e : Fault) :
      Download r [.event r (.downloading r.remoteUrl), .stage r.fileKey (.error e),
        .notice (.storeFault e)] (.error (.store e))
  | conflict :
      Download r [.event r (.downloading r.remoteUrl), .stage r.fileKey (.ok none),
        .event r .writerConflict] (.ok none)
  | sent {writer last : Wr} {talk : Talk} {result : Except Fault Unit}
      {sent ending : List (Deed R Wr S I)} {outcome : Except (FetchFault E) (Option R)}
      (sending : Sending r.remoteUrl writer sent talk result last)
      (ends : Ending r talk last result ending outcome) :
      Download r (.event r (.downloading r.remoteUrl) :: .stage r.fileKey (.ok (some writer)) ::
        (sent ++ ending)) outcome

/-- The bytes for a request are looked for, and downloaded if the store has none. -/
inductive Locate (r : Request) : List (Deed R Wr S I) →
    Except (FetchFault E) (Option (R × Provenance)) → Prop
  | fault {deeds : List (Deed R Wr S I)} {e : FetchFault E} (look : Look r deeds (.error e)) :
      Locate r deeds (.error e)
  | found {deeds : List (Deed R Wr S I)} {place : R × Provenance}
      (look : Look (E := E) r deeds (.ok (some place))) : Locate r deeds (.ok (some place))
  | downloaded {deeds more : List (Deed R Wr S I)} {outcome : Except (FetchFault E) (Option R)}
      (look : Look (E := E) r deeds (.ok none)) (download : Download r more outcome) :
      Locate r (deeds ++ more) (outcome.map (·.map (·, .network)))

namespace Fetcher

variable {f : Fetcher W R Wr S I E} {r : Request} {w : W} {record : List (Deed R Wr S I)}

theorem abandon_bind {writer : Wr} {next : FetchM W E β}
    {recordedNext : FetchM (W × List (Deed R Wr S I)) E β}
    {χ : List (Deed R Wr S I) → Except (FetchFault E) β → Session W → Prop}
    (h : ∀ reply w' past, Goes f ⟨r, w'⟩ past next recordedNext
      fun more => χ (.abort writer reply :: (abortNotice reply ++ more))) :
    Goes f ⟨r, w⟩ record (f.abandon writer >>= fun _ => next)
      (f.recorded.abandon writer >>= fun _ => recordedNext) χ := by
  simp only [abandon, bind_assoc]
  refine Goes.call_bind (.abort writer) rfl ?_
  intro reply w' _
  cases reply with
  | ok _ =>
    simp only [pure_bind]
    exact h (.ok ()) w' _
  | error e =>
    exact Goes.call_bind (fun _ => .notice (.abortFailed e)) rfl fun _ w'' _ => h (.error e) w'' _

/-- The transfer is run on the writer as if nobody watched, and what was watched is what they said
to each other. -/
theorem send_bind {url : String} {writer : Wr}
    {next : Except Fault Unit × Watched Wr → FetchM W E β}
    {recordedNext : Except Fault Unit × Watched Wr → FetchM (W × List (Deed R Wr S I)) E β}
    {χ : List (Deed R Wr S I) → Except (FetchFault E) β → Session W → Prop}
    (h : ∀ program start deeds result last w', f.Does w (.transfer url program) start →
      f.store.writer.run program (writer, start) = (result, (last, w')) →
      Conveys writer (f.store.writer.talk program (writer, start)) deeds last →
      Goes f ⟨r, w'⟩ (record ++ .transfer url program :: deeds)
        (next (result, ⟨last, Talk.total (f.store.writer.talk program (writer, start)),
          Talk.refused (f.store.writer.talk program (writer, start))⟩))
        (recordedNext (result, ⟨last, Talk.total (f.store.writer.talk program (writer, start)),
          Talk.refused (f.store.writer.talk program (writer, start))⟩))
        fun more => χ (.transfer url program :: (deeds ++ more))) :
    Goes f ⟨r, w⟩ record (FetchM.act (f.send url writer) >>= next)
      (FetchM.act (f.recorded.send url writer) >>= recordedNext) χ := by
  obtain ⟨⟨program, start⟩, ht⟩ : ∃ out, f.source.transfer url w = out := ⟨_, rfl⟩
  have hrt : f.recorded.source.transfer url (w, record) =
      (program, (start, record ++ [.transfer url program])) := by
    simp [recorded, Source.recorded, noted, ht]
  obtain ⟨deeds, result, last, after, hp, hs, hr, hl, hc⟩ :=
    watched_run f program writer start (record ++ [.transfer url program]) 0 false
  have hled : f.Leads w (.transfer url program :: deeds) after := ⟨start, ht, hl⟩
  refine Goes.act_bind ?_ ?_ hled (h program start deeds result last after ht hp hc)
  · simp [send, Bind.bind, StateT.bind, ht, Watched.start, hs, Watched.detach]
  · simp [send, Bind.bind, StateT.bind, hrt, Watched.start, hr, Watched.detach]

theorem download_goes :
    Goes f ⟨r, w⟩ record f.download f.recorded.download fun done outcome left =>
      Download r done outcome ∧ ∃ w', left = ⟨r, w'⟩ := by
  refine Goes.get_bind (emit_bind (.downloading r.remoteUrl) fun w₁ => ?_)
  refine fromStore_bind (.stage r.fileKey) rfl ?_ fun e w' => ⟨.unstaged e, w', rfl⟩
  intro staged w₂ _
  cases staged with
  | none => exact emit_bind .writerConflict fun w' => Goes.pure ⟨.conflict, w', rfl⟩
  | some writer =>
    refine send_bind ?_
    intro program start sent result last w₃ _ run conveys
    generalize ht : f.store.writer.talk program (writer, start) = talk at conveys
    have plays : program.Plays talk result := by
      have played := program.plays_talk f.store.writer.answer (writer, start)
      rwa [← Sink.talk, ht, ← Sink.run, run] at played
    have hs : Sending r.remoteUrl writer (.transfer r.remoteUrl program :: sent) talk result last :=
      .intro plays conveys
    cases result with
    | ok _ =>
      refine fromStore_bind (.commit last) rfl ?_ fun e w' => ⟨.sent hs (.uncommitted e), w', rfl⟩
      intro _ w₄ _
      refine emit_bind (.committed (Talk.total talk)) fun w₅ => ?_
      exact fromStore_goes (.read r.fileKey) rfl
        (fun found w' => ⟨.sent hs (.committed found), w', rfl⟩)
        fun e w' => ⟨.sent hs (.unread e), w', rfl⟩
    | error e =>
      refine abandon_bind ?_
      intro reply w₄ past
      cases hf : Talk.refused talk with
      | true => exact failStore_goes e fun w' => ⟨.sent hs (.refused e reply hf), w', rfl⟩
      | false =>
        exact emit_bind (.downloadFailed e.message)
          fun w' => Goes.pure ⟨.sent hs (.failed e reply hf), w', rfl⟩

theorem locate_goes :
    Goes f ⟨r, w⟩ record f.locate f.recorded.locate fun done outcome left =>
      Locate r done outcome ∧ ∃ w', left = ⟨r, w'⟩ := by
  refine Goes.bind readCached_goes ?_ ?_
  · rintro deeds found _ - ⟨look, w', rfl⟩
    cases found with
    | some place => exact Goes.pure ⟨by simpa using Locate.found look, w', rfl⟩
    | none =>
      refine Goes.bind download_goes ?_ ?_
      · rintro more found _ - ⟨download, w'', rfl⟩
        refine Goes.pure ⟨?_, w'', rfl⟩
        rw [List.append_nil]
        exact Locate.downloaded look download
      · rintro more e _ ⟨download, w'', rfl⟩
        exact ⟨Locate.downloaded look download, w'', rfl⟩
  · rintro deeds e _ ⟨look, hw⟩
    exact ⟨.fault look, hw⟩

end Fetcher

/-- Decoding an open entry: a pass for the size, back to the start, a pass for the image. Both
passes are the codec's own programs, run on that entry. -/
inductive Decode (f : Fetcher W R Wr S I E) (entry : R) : Session W → List (Deed R Wr S I) →
    Except (FetchFault E) (I × DecodePlan) → Session W → Prop
  | noSize {r : Request} {w w₁ w' : W} {handle : Buffered R} {e : E}
      {deeds : List (Deed R Wr S I)}
      (bounds : f.bufferedEntry.run f.codec.boundsSeekable (Buffered.start entry, w) =
        (.error e, (handle, w₁)))
      (perusals : ∀ deed ∈ deeds, deed.isPerusal) :
      Decode f entry ⟨r, w⟩ (deeds ++ [.notice .decodeFailed]) (.error (.decode e)) ⟨r, w'⟩
  | noRewind {r : Request} {w w₁ w₂ w' : W} {handle rewound : Buffered R} {origin : Size}
      {e : Fault} {deeds : List (Deed R Wr S I)}
      (bounds : f.bufferedEntry.run f.codec.boundsSeekable (Buffered.start entry, w) =
        (.ok origin, (handle, w₁)))
      (rewind : f.bufferedEntry.rewind (handle, w₁) = (.error e, (rewound, w₂)))
      (perusals : ∀ deed ∈ deeds, deed.isPerusal) :
      Decode f entry ⟨r, w⟩ (deeds ++ [.notice (.storeFault e)]) (.error (.store e)) ⟨r, w'⟩
  | noImage {r : Request} {w w₁ w₂ w₃ w₄ w' : W} {handle rewound last : Buffered R} {origin : Size}
      {e : E} {deeds more : List (Deed R Wr S I)}
      (bounds : f.bufferedEntry.run f.codec.boundsSeekable (Buffered.start entry, w) =
        (.ok origin, (handle, w₁)))
      (rewind : f.bufferedEntry.rewind (handle, w₁) = (.ok (), (rewound, w₂)))
      (told : f.observer.onEvent (r.recordOrigin origin)
        (.decoding origin (DecodePlan.choose origin r.target).factor) w₂ = ((), w₃))
      (image : f.bufferedEntry.run
        (f.codec.decodeSeekable (DecodePlan.choose origin r.target).factor) (rewound, w₃) =
          (.error e, (last, w₄)))
      (perusals : ∀ deed ∈ deeds ++ more, deed.isPerusal) :
      Decode f entry ⟨r, w⟩
        (deeds ++ .event (r.recordOrigin origin)
          (.decoding origin (DecodePlan.choose origin r.target).factor) ::
          (more ++ [.notice .decodeFailed]))
        (.error (.decode e)) ⟨r.recordOrigin origin, w'⟩
  | image {r : Request} {w w₁ w₂ w₃ w' : W} {handle rewound last : Buffered R} {origin : Size}
      {image : I} {deeds more : List (Deed R Wr S I)}
      (bounds : f.bufferedEntry.run f.codec.boundsSeekable (Buffered.start entry, w) =
        (.ok origin, (handle, w₁)))
      (rewind : f.bufferedEntry.rewind (handle, w₁) = (.ok (), (rewound, w₂)))
      (told : f.observer.onEvent (r.recordOrigin origin)
        (.decoding origin (DecodePlan.choose origin r.target).factor) w₂ = ((), w₃))
      (decode : f.bufferedEntry.run
        (f.codec.decodeSeekable (DecodePlan.choose origin r.target).factor) (rewound, w₃) =
          (.ok image, (last, w')))
      (perusals : ∀ deed ∈ deeds ++ more, deed.isPerusal) :
      Decode f entry ⟨r, w⟩
        (deeds ++ .event (r.recordOrigin origin)
          (.decoding origin (DecodePlan.choose origin r.target).factor) :: more)
        (.ok (image, DecodePlan.choose origin r.target)) ⟨r.recordOrigin origin, w'⟩

inductive Course (f : Fetcher W R Wr S I E) (r : Request) (w : W) :
    List (Deed R Wr S I) → FetchResult I E → Session W → Prop
  | fault {deeds : List (Deed R Wr S I)} {e : FetchFault E} {w' : W}
      (locate : Locate (R := R) r deeds (.error e)) :
      Course f r w (.event r (.started r.fileKey) :: deeds) (.error e) ⟨r, w'⟩
  | missing {deeds : List (Deed R Wr S I)} {w' : W}
      (locate : Locate (R := R) (E := E) r deeds (.ok none)) :
      Course f r w (.event r (.started r.fileKey) :: (deeds ++ [.event r .unavailable])) (.ok none)
        ⟨r, w'⟩
  | found {deeds more : List (Deed R Wr S I)} {entry : R} {provenance : Provenance} {w₁ : W}
      {outcome : Except (FetchFault E) (I × DecodePlan)} {after : Session W}
      (locate : Locate (E := E) r deeds (.ok (some (entry, provenance))))
      (leads : f.Leads w (.event r (.started r.fileKey) :: deeds) w₁)
      (decode : Decode f entry ⟨r, w₁⟩ more outcome after) :
      Course f r w (.event r (.started r.fileKey) :: (deeds ++ more))
        (outcome.map fun (image, plan) => some ⟨image, provenance, plan⟩) after

namespace Fetcher

variable {f : Fetcher W R Wr S I E} {r : Request} {w : W} {record : List (Deed R Wr S I)}

/-- A pass of the codec over an open entry or stream, with what comes after it. It is known of the
pass that it can be recorded, and how its deeds and its result go together. -/
theorem decoding_bind {H A : Type} {run : A → H × W → Except E α × (H × W)}
    {recordedRun : A → H × (W × List (Deed R Wr S I)) →
      Except E α × (H × (W × List (Deed R Wr S I)))}
    {program : A} {handle : H} {known : List (Deed R Wr S I) → Except E α → Prop}
    (runs : ∃ deeds result last after, run program (handle, w) = (result, (last, after)) ∧
      recordedRun program (handle, (w, record)) = (result, (last, (after, record ++ deeds))) ∧
      f.Leads w deeds after ∧ known deeds result)
    {next : α × H → FetchM W E β}
    {recordedNext : α × H → FetchM (W × List (Deed R Wr S I)) E β}
    {χ : List (Deed R Wr S I) → Except (FetchFault E) β → Session W → Prop}
    (ok : ∀ deeds a last w₁, run program (handle, w) = (.ok a, (last, w₁)) →
      known deeds (.ok a) →
      Goes f ⟨r, w₁⟩ (record ++ deeds) (next (a, last)) (recordedNext (a, last))
        fun more => χ (deeds ++ more))
    (error : ∀ deeds e last w₁ w', run program (handle, w) = (.error e, (last, w₁)) →
      known deeds (.error e) →
      χ (deeds ++ [.notice .decodeFailed]) (.error (.decode e)) ⟨r, w'⟩) :
    Goes f ⟨r, w⟩ record (f.decoding run program handle >>= next)
      (f.recorded.decoding recordedRun program handle >>= recordedNext) χ := by
  obtain ⟨deeds, result, last, after, hs, hr, hl, hp⟩ := runs
  simp only [decoding, bind_assoc]
  refine Goes.act_bind (a := (result, last)) ?_ ?_ hl ?_
  · simp [hs]
  · simp [hr]
  · cases result with
    | ok a =>
      simp only [pure_bind]
      exact ok deeds a last after hs hp
    | error e => exact failDecode_bind e fun w' => error deeds e last after w' hs hp

theorem choosePlan_bind (origin : Size) {next : DecodePlan → FetchM W E β}
    {recordedNext : DecodePlan → FetchM (W × List (Deed R Wr S I)) E β}
    {χ : List (Deed R Wr S I) → Except (FetchFault E) β → Session W → Prop}
    (h : ∀ w' past, f.observer.onEvent (r.recordOrigin origin)
        (.decoding origin (DecodePlan.choose origin r.target).factor) w = ((), w') →
      Goes f ⟨r.recordOrigin origin, w'⟩ past (next (DecodePlan.choose origin r.target))
        (recordedNext (DecodePlan.choose origin r.target))
        fun more => χ (.event (r.recordOrigin origin)
          (.decoding origin (DecodePlan.choose origin r.target).factor) :: more)) :
    Goes f ⟨r, w⟩ record (f.choosePlan origin >>= next)
      (f.recorded.choosePlan origin >>= recordedNext) χ := by
  simp only [choosePlan, bind_assoc, pure_bind]
  refine Goes.modify_bind (·.recordOrigin origin) (Goes.get_bind ?_)
  refine Goes.call_bind (fun _ => .event (r.recordOrigin origin)
    (.decoding origin (DecodePlan.choose origin r.target).factor)) rfl ?_
  exact fun _ w' told => h w' _ told

theorem decodeEntry_goes (entry : R) :
    Goes f ⟨r, w⟩ record (f.decodeEntry entry) (f.recorded.decodeEntry entry)
      (Decode f entry ⟨r, w⟩) := by
  refine decoding_bind (f.buffered_run f.codec.boundsSeekable (Buffered.start entry) w record) ?_
    fun deeds e last w₁ w' hb hp => .noSize hb hp.1
  intro deeds origin handle w₁ hb ⟨hp, _⟩
  obtain ⟨seeks, reply, rewound, w₂, hs, hr, hl, hps, -⟩ :=
    f.buffered_rewind handle w₁ (record ++ deeds)
  have hp₂ : ∀ deed ∈ deeds ++ seeks, deed.isPerusal := List.forall_mem_append.mpr ⟨hp, hps⟩
  refine Goes.act_bind (a := (reply, rewound)) ?_ ?_ hl ?_
  · simp [hs]
  · simp [hr]
  refine fromReply_bind reply ?_ ?_
  · rintro _ rfl
    refine choosePlan_bind origin fun w₃ past told => ?_
    refine decoding_bind (f.buffered_run (f.codec.decodeSeekable _) rewound w₃ past) ?_ ?_
    · intro more image last w₄ hi ⟨hp₄, _⟩
      refine Goes.pure ?_
      have done : Decode f entry ⟨r, w⟩ _ (.ok (image, _)) ⟨r.recordOrigin origin, w₄⟩ :=
        .image hb hs told hi (List.forall_mem_append.mpr ⟨hp₂, hp₄⟩)
      rw [List.append_nil]
      rwa [List.append_assoc] at done
    · intro more e last w₄ w' hi ⟨hp₄, _⟩
      have done : Decode f entry ⟨r, w⟩ _ (.error (.decode e)) ⟨r.recordOrigin origin, w'⟩ :=
        .noImage hb hs told hi (List.forall_mem_append.mpr ⟨hp₂, hp₄⟩)
      rwa [List.append_assoc] at done
  · rintro e w' rfl
    have done : Decode f entry ⟨r, w⟩ _ (.error (.store e)) ⟨r, w'⟩ := .noRewind hb hs hp₂
    rwa [List.append_assoc] at done

theorem fetchSteps_goes :
    Goes f ⟨r, w⟩ record f.fetchSteps f.recorded.fetchSteps (Course f r w) := by
  refine Goes.get_bind (Goes.call_bind (fun _ => .event r (.started r.fileKey)) rfl ?_)
  intro _ w₁ hstart
  refine Goes.bind locate_goes ?_ ?_
  · rintro deeds found _ hl ⟨locate, w', rfl⟩
    have hled : f.Leads w (.event r (.started r.fileKey) :: deeds) w' := ⟨w₁, hstart, hl⟩
    cases found with
    | none =>
      refine emit_bind .unavailable fun w'' => Goes.pure ?_
      exact .missing locate
    | some place =>
      obtain ⟨entry, provenance⟩ := place
      refine Goes.bind (decodeEntry_goes entry) ?_ ?_
      · rintro more ⟨image, plan⟩ left - hd
        refine Goes.pure ?_
        rw [List.append_nil]
        exact .found locate hled hd
      · rintro more e left hd
        exact .found locate hled hd
  · rintro deeds e _ ⟨locate, w', rfl⟩
    exact .fault locate

/-- What a fetch asks of the collaborators, in order, with their replies. -/
def trace (f : Fetcher W R Wr S I E) (r : Request) (w : W) : List (Deed R Wr S I) :=
  (f.recorded.fetch r (w, [])).2.2

/-- What is shown of all steps holds of a fetch and what is written down of it. -/
theorem fetch_of_goes {φ : List (Deed R Wr S I) → FetchResult I E → Prop}
    (goes : Goes f ⟨r, w⟩ [] f.fetchSteps f.recorded.fetchSteps fun done outcome _ =>
      φ done outcome) : φ (f.trace r w) (f.fetch r w).1.1 := by
  obtain ⟨deeds, outcome, left, hs, hr, -, h⟩ := goes
  have hf : (f.fetch r w).1.1 = outcome := by
    simp [fetch, FetchM.runFor, hs]
  have ht : f.trace r w = deeds := by
    simp [trace, fetch, FetchM.runFor, hr]
  rwa [hf, ht]

/-- Writing a fetch down changes neither its result nor the world it leaves, and what is written
down is a course of a fetch. -/
theorem fetch_course (f : Fetcher W R Wr S I E) (r : Request) (w : W) :
    ∃ outcome left, f.fetch r w = ((outcome, left.request), left.world) ∧
      f.recorded.fetch r (w, []) = ((outcome, left.request), (left.world, f.trace r w)) ∧
      f.Leads w (f.trace r w) left.world ∧ Course f r w (f.trace r w) outcome left := by
  have hgoes : Goes f ⟨r, w⟩ [] f.fetchSteps f.recorded.fetchSteps (Course f r w) := fetchSteps_goes
  obtain ⟨deeds, outcome, left, hs, hr, hl, hc⟩ := hgoes
  have hf : f.fetch r w = ((outcome, left.request), left.world) := by
    simp [fetch, FetchM.runFor, hs]
  have hfr : f.recorded.fetch r (w, []) = ((outcome, left.request), (left.world, deeds)) := by
    simp [fetch, FetchM.runFor, hr]
  have ht : f.trace r w = deeds := by
    simp [trace, hfr]
  rw [ht]
  exact ⟨outcome, left, hf, hfr, hl, hc⟩

end Fetcher

end ImageCache
