import ImageCache.Proofs.Fetch.Procedure
import ImageCache.Proofs.Fetch.WriterLife

namespace ImageCache

open Fetcher

variable {W R Wr S I E : Type}

def Deed.event? : Deed R Wr S I → Option Event
  | .event _ e => some e
  | _ => none

def told (deeds : List (Deed R Wr S I)) : List Event := deeds.filterMap Deed.event?

@[simp]
theorem told_nil : told ([] : List (Deed R Wr S I)) = [] := rfl

@[simp]
theorem told_append (first second : List (Deed R Wr S I)) :
    told (first ++ second) = told first ++ told second :=
  List.filterMap_append

@[simp]
theorem told_event (r : Request) (e : Event) (deeds : List (Deed R Wr S I)) :
    told (.event r e :: deeds) = e :: told deeds := rfl

theorem told_perusals {deeds : List (Deed R Wr S I)} (h : ∀ deed ∈ deeds, deed.isPerusal) :
    told deeds = [] := by
  apply List.filterMap_eq_nil_iff.mpr
  intro deed hd
  cases deed with
  | event r e => cases h _ hd
  | _ => rfl

theorem Conveys.told_nil {writer last : Wr} {talk : Talk} {deeds : List (Deed R Wr S I)}
    (h : Conveys writer talk deeds last) : told deeds = [] := by
  apply List.filterMap_eq_nil_iff.mpr
  intro deed hd
  have hu := h.uses deed hd
  cases deed with
  | event r e => cases hu
  | _ => rfl

/-- One miss for each tag, with the key that was looked for. -/
def Request.misses (r : Request) (tags : List String) : List Event :=
  tags.map fun tag => .reuseMiss tag (r.renditionKey tag)

/-- Once there is an entry it is told how it is decoded, if it comes to that. -/
inductive DecodeWord (r : Request) : List Event → Prop
  | nothing : DecodeWord r []
  | decoding (origin : Size) :
      DecodeWord r [.decoding origin (DecodePlan.choose origin r.target).factor]

inductive DownloadWord (r : Request) : List Event → Prop
  | nothing : DownloadWord r []
  | conflict : DownloadWord r [.writerConflict, .unavailable]
  | failed (error : String) : DownloadWord r [.downloadFailed error, .unavailable]
  | gone (bytes : Nat) : DownloadWord r [.committed bytes, .unavailable]
  | committed (bytes : Nat) {word : List Event} (decode : DecodeWord r word) :
      DownloadWord r (.committed bytes :: word)

/-- What a fetch may tell. A fault of the store may cut it off while an entry is looked for. -/
inductive Word (r : Request) : List Event → Prop
  | unread : Word r [.started r.fileKey]
  | cutOff {missed rest : List String} {tag : String}
      (split : r.reuseTags = missed ++ tag :: rest) :
      Word r (.started r.fileKey :: r.misses missed)
  | exact {word : List Event} (decode : DecodeWord r word) :
      Word r (.started r.fileKey :: .diskHit :: word)
  | reuse {missed rest : List String} {tag : String} {word : List Event}
      (split : r.reuseTags = missed ++ tag :: rest) (decode : DecodeWord r word) :
      Word r (.started r.fileKey :: (r.misses missed ++ .reuseHit tag :: word))
  | download {word : List Event} (download : DownloadWord r word) :
      Word r (.started r.fileKey :: (r.misses r.reuseTags ++ .downloading r.remoteUrl :: word))

/-- Words after which the fetch fails for the store, and no entry was found to decode. -/
inductive Halts (r : Request) : List Event → Prop
  | unread : Halts r [.started r.fileKey]
  | cutOff {missed rest : List String} {tag : String}
      (split : r.reuseTags = missed ++ tag :: rest) :
      Halts r (.started r.fileKey :: r.misses missed)
  | broken : Halts r (.started r.fileKey :: (r.misses r.reuseTags ++ [.downloading r.remoteUrl]))
  | lost (bytes : Nat) :
      Halts r (.started r.fileKey ::
        (r.misses r.reuseTags ++ [.downloading r.remoteUrl, .committed bytes]))

inductive Misses (r : Request) : List Event → Prop
  | conflict :
      Misses r (.started r.fileKey ::
        (r.misses r.reuseTags ++ [.downloading r.remoteUrl, .writerConflict]))
  | failed (error : String) :
      Misses r (.started r.fileKey ::
        (r.misses r.reuseTags ++ [.downloading r.remoteUrl, .downloadFailed error]))
  | gone (bytes : Nat) :
      Misses r (.started r.fileKey ::
        (r.misses r.reuseTags ++ [.downloading r.remoteUrl, .committed bytes]))

inductive Finds (r : Request) : List Event → Prop
  | exact : Finds r [.started r.fileKey, .diskHit]
  | reuse {missed rest : List String} {tag : String}
      (split : r.reuseTags = missed ++ tag :: rest) :
      Finds r (.started r.fileKey :: (r.misses missed ++ [.reuseHit tag]))
  | committed (bytes : Nat) :
      Finds r (.started r.fileKey ::
        (r.misses r.reuseTags ++ [.downloading r.remoteUrl, .committed bytes]))

/-- How the search for the bytes of a request is told, by its outcome. -/
inductive Located (r : Request) : List Event →
    Except (FetchFault E) (Option (R × Provenance)) → Prop
  | halted {word : List Event} (e : Fault) (h : Halts r (.started r.fileKey :: word)) :
      Located r word (.error (.store e))
  | missed {word : List Event} (h : Misses r (.started r.fileKey :: word)) :
      Located r word (.ok none)
  | found {word : List Event} (place : R × Provenance) (h : Finds r (.started r.fileKey :: word)) :
      Located r word (.ok (some place))

inductive Scanned (r : Request) (tags : List String) : List Event →
    Except (FetchFault E) (Option (R × Provenance)) → Prop
  | spent : Scanned r tags (r.misses tags) (.ok none)
  | fault (missed : List String) {rest : List String} {tag : String} (e : Fault)
      (split : tags = missed ++ tag :: rest) : Scanned r tags (r.misses missed) (.error (.store e))
  | hit (missed : List String) {rest : List String} {tag : String} (entry : R)
      (split : tags = missed ++ tag :: rest) :
      Scanned r tags (r.misses missed ++ [.reuseHit tag]) (.ok (some (entry, .reuse tag)))

inductive Obtained : List Event → Except (FetchFault E) (Option R) → Prop
  | broken (e : Fault) : Obtained [] (.error (.store e))
  | lost (bytes : Nat) (e : Fault) : Obtained [.committed bytes] (.error (.store e))
  | conflict : Obtained [.writerConflict] (.ok none)
  | failed (error : String) : Obtained [.downloadFailed error] (.ok none)
  | committed (bytes : Nat) (found : Option R) : Obtained [.committed bytes] (.ok found)

section

variable {r : Request} {deeds : List (Deed R Wr S I)}

theorem Scan.scanned {tags : List String}
    {outcome : Except (FetchFault E) (Option (R × Provenance))} (h : Scan r tags deeds outcome) :
    Scanned r tags (told deeds) outcome := by
  induction h with
  | spent => exact .spent
  | fault tag rest e => exact .fault [] e rfl
  | hit tag rest entry => exact .hit [] entry rfl
  | @miss tag rest deeds outcome h ih =>
    change Scanned r (tag :: rest) (.reuseMiss tag (r.renditionKey tag) :: told deeds) outcome
    generalize told deeds = word at ih
    -- The tag joins those that were missed before the scan came to its end.
    cases ih with
    | spent => exact .spent
    | fault missed e split => exact .fault (tag :: missed) e (congrArg (tag :: ·) split)
    | hit missed entry split => exact .hit (tag :: missed) entry (congrArg (tag :: ·) split)

theorem Ending.obtained {talk : Talk} {last : Wr} {result : Except Fault Unit}
    {outcome : Except (FetchFault E) (Option R)} (h : Ending r talk last result deeds outcome) :
    Obtained (told deeds) outcome := by
  cases h with
  | uncommitted e => exact .broken e
  | unread e => exact .lost _ e
  | committed found => exact .committed _ found
  | refused e reply =>
    cases reply with
    | ok _ => exact .broken e
    | error _ => exact .broken e
  | failed e reply =>
    cases reply with
    | ok _ => exact .failed _
    | error _ => exact .failed _

theorem Download.obtained {outcome : Except (FetchFault E) (Option R)}
    (h : Download r deeds outcome) :
    ∃ word, told deeds = .downloading r.remoteUrl :: word ∧ Obtained word outcome := by
  cases h with
  | unstaged e => exact ⟨[], rfl, .broken e⟩
  | conflict => exact ⟨_, rfl, .conflict⟩
  | @sent _ _ _ _ _ ending _ sending ends =>
    cases sending with
    | @intro program _ _ during _ plays conveys =>
      refine ⟨told ending, ?_, ends.obtained⟩
      change .downloading r.remoteUrl :: told (during ++ ending) = _
      rw [told_append, conveys.told_nil, List.nil_append]

theorem Look.located {outcome : Except (FetchFault E) (Option (R × Provenance))}
    (h : Look r deeds outcome) :
    (outcome = .ok none ∧ told deeds = r.misses r.reuseTags) ∨
      (outcome ≠ .ok none ∧ Located r (told deeds) outcome) := by
  cases h with
  | fault e => exact .inr ⟨nofun, .halted e .unread⟩
  | hit entry => exact .inr ⟨nofun, .found _ .exact⟩
  | @scan deeds outcome h =>
    change _ ∧ told deeds = _ ∨ _ ∧ Located r (told deeds) outcome
    have scanned := h.scanned
    generalize told deeds = word at scanned
    cases scanned with
    | spent => exact .inl ⟨rfl, rfl⟩
    | fault missed e split => exact .inr ⟨nofun, .halted e (.cutOff split)⟩
    | hit missed entry split => exact .inr ⟨nofun, .found _ (.reuse split)⟩

theorem Locate.located {outcome : Except (FetchFault E) (Option (R × Provenance))}
    (h : Locate r deeds outcome) : Located r (told deeds) outcome := by
  cases h with
  | fault look =>
    rcases look.located with ⟨hn, -⟩ | ⟨-, located⟩
    · cases hn
    · exact located
  | found look =>
    rcases look.located with ⟨hn, -⟩ | ⟨-, located⟩
    · cases hn
    · exact located
  | downloaded look download =>
    rcases look.located with ⟨-, hm⟩ | ⟨hn, -⟩
    · obtain ⟨word, hw, obtained⟩ := download.obtained
      rw [told_append, hm, hw]
      cases obtained with
      | broken e => exact .halted e .broken
      | lost bytes e => exact .halted e (.lost bytes)
      | conflict => exact .missed .conflict
      | failed error => exact .missed (.failed error)
      | committed bytes found =>
        cases found with
        | none => exact .missed (.gone bytes)
        | some entry => exact .found (entry, .network) (.committed bytes)
    · exact absurd rfl hn

end

/-- How the decoding of an entry is told, with its outcome and what becomes of the request. -/
inductive Decoded (f : Fetcher W R Wr S I E) (entry : R) (r : Request) (w : W) : List Event →
    Except (FetchFault E) (I × DecodePlan) → Request → Prop
  | nothing (fault : FetchFault E) : Decoded f entry r w [] (.error fault) r
  | decoding {origin : Size} {left : Buffered R × W}
      {outcome : Except (FetchFault E) (I × DecodePlan)}
      (bounds : f.bufferedEntry.run f.codec.boundsSeekable (Buffered.start entry, w) =
        (.ok origin, left))
      (plan : ∀ found, outcome = .ok found → found.2 = DecodePlan.choose origin r.target) :
      Decoded f entry r w [.decoding origin (DecodePlan.choose origin r.target).factor] outcome
        (r.recordOrigin origin)

theorem Decode.decoded {f : Fetcher W R Wr S I E} {entry : R} {r : Request} {w : W}
    {deeds : List (Deed R Wr S I)} {outcome : Except (FetchFault E) (I × DecodePlan)}
    {left : Session W} (h : Decode f entry ⟨r, w⟩ deeds outcome left) :
    Decoded f entry r w (told deeds) outcome left.request := by
  cases h with
  | noSize bounds perusals =>
    rw [told_append, told_perusals perusals]
    exact .nothing _
  | noRewind bounds rewind perusals =>
    rw [told_append, told_perusals perusals]
    exact .nothing _
  | noImage bounds rewind told image perusals =>
    obtain ⟨hd, hm⟩ := List.forall_mem_append.mp perusals
    rw [told_append, told_perusals hd, told_event, told_append, told_perusals hm]
    exact .decoding bounds nofun
  | image bounds rewind told decode perusals =>
    obtain ⟨hd, hm⟩ := List.forall_mem_append.mp perusals
    rw [told_append, told_perusals hd, told_event, told_perusals hm]
    refine .decoding bounds ?_
    rintro _ ⟨⟩
    rfl

section

variable {r : Request} {words more : List Event}

theorem Halts.word (h : Halts r words) : Word r words := by
  cases h with
  | unread => exact .unread
  | cutOff split => exact .cutOff split
  | broken => exact .download .nothing
  | lost bytes => exact .download (.committed bytes .nothing)

theorem Misses.word (h : Misses r words) : Word r (words ++ [.unavailable]) := by
  cases h with
  | conflict => simpa using Word.download (r := r) .conflict
  | failed error => simpa using Word.download (r := r) (.failed error)
  | gone bytes => simpa using Word.download (r := r) (.gone bytes)

theorem Finds.word (h : Finds r words) (decode : DecodeWord r more) : Word r (words ++ more) := by
  cases h with
  | exact => exact .exact decode
  | reuse split => simpa using Word.reuse split decode
  | committed bytes => simpa using Word.download (.committed bytes decode)

def Event.concludes : Event → Bool
  | .decoding _ _ => true
  | .unavailable => true
  | _ => false

/-- Tells of the search among what the store has, as long as nothing was found. -/
def Event.searches : Event → Bool
  | .started _ => true
  | .reuseMiss _ _ => true
  | _ => false

theorem search_inconclusive (r : Request) (missed : List String)
    (h : ∀ event ∈ more, event.concludes = false) :
    ∀ event ∈ Event.started r.fileKey :: (r.misses missed ++ more), event.concludes = false := by
  refine List.forall_mem_cons.mpr ⟨rfl, List.forall_mem_append.mpr ⟨?_, h⟩⟩
  simp [Request.misses, Event.concludes]

theorem Halts.inconclusive (h : Halts r words) : ∀ event ∈ words, event.concludes = false := by
  cases h with
  | unread => simp [Event.concludes]
  | @cutOff missed rest tag split =>
    simpa using search_inconclusive r missed (List.forall_mem_nil _)
  | broken => exact search_inconclusive r _ (by simp [Event.concludes])
  | lost bytes => exact search_inconclusive r _ (by simp [Event.concludes])

theorem Finds.inconclusive (h : Finds r words) : ∀ event ∈ words, event.concludes = false := by
  cases h with
  | exact => simp [Event.concludes]
  | reuse split => exact search_inconclusive r _ (by simp [Event.concludes])
  | committed bytes => exact search_inconclusive r _ (by simp [Event.concludes])

theorem Misses.inconclusive (h : Misses r words) : ∀ event ∈ words, event.concludes = false := by
  cases h with
  | _ => exact search_inconclusive r _ (by simp [Event.concludes])

/-- An entry that was found shows in what is told. -/
theorem Finds.found (h : Finds r words) : ∃ event ∈ words, event.searches = false := by
  cases h with
  | exact => exact ⟨.diskHit, by simp, rfl⟩
  | @reuse missed rest tag split => exact ⟨.reuseHit tag, by simp, rfl⟩
  | committed bytes => exact ⟨.committed bytes, by simp, rfl⟩

end

/-- The observer is told of a commit just if one came about. -/
def CommitsTold (deeds : List (Deed R Wr S I)) : Prop :=
  (∃ bytes, .committed bytes ∈ told deeds) ↔ ∃ writer, .commit writer (.ok ()) ∈ deeds

section

variable {r : Request} {deeds first second : List (Deed R Wr S I)}

theorem CommitsTold.append (hf : CommitsTold first) (hs : CommitsTold second) :
    CommitsTold (first ++ second) := by
  simp only [CommitsTold, told_append, List.mem_append, exists_or] at *
  rw [hf, hs]

theorem mem_told {event : Event} : event ∈ told deeds ↔ ∃ r, .event r event ∈ deeds := by
  simp only [told, List.mem_filterMap]
  constructor
  · rintro ⟨deed, hd, he⟩
    cases deed with
    | event r e =>
      cases he
      exact ⟨r, hd⟩
    | _ => cases he
  · rintro ⟨r, hd⟩
    exact ⟨_, hd, rfl⟩

theorem Idle.commitsTold (h : Idle deeds) : CommitsTold deeds := by
  constructor
  · rintro ⟨bytes, hb⟩
    obtain ⟨r, hd⟩ := mem_told.mp hb
    exact nomatch (h _ hd).2
  · rintro ⟨writer, hw⟩
    exact nomatch (h _ hw).1

theorem Ending.commitsTold {talk : Talk} {last : Wr} {result : Except Fault Unit}
    {outcome : Except (FetchFault E) (Option R)} (h : Ending r talk last result deeds outcome) :
    CommitsTold deeds := by
  cases h with
  | uncommitted e => simp [CommitsTold, told, Deed.event?]
  | unread e => simp [CommitsTold, told, Deed.event?]
  | committed found => simp [CommitsTold, told, Deed.event?]
  | refused e reply =>
    cases reply with
    | _ => simp [CommitsTold, told, Deed.event?, abortNotice]
  | failed e reply =>
    cases reply with
    | _ => simp [CommitsTold, told, Deed.event?, abortNotice]

theorem Conveys.commitsTold {writer last : Wr} {talk : Talk}
    (h : Conveys writer talk deeds last) : CommitsTold deeds := by
  constructor
  · rintro ⟨bytes, hb⟩
    rw [h.told_nil] at hb
    cases hb
  · rintro ⟨writer, hw⟩
    exact nomatch h.uses _ hw

theorem Download.commitsTold {outcome : Except (FetchFault E) (Option R)}
    (h : Download r deeds outcome) : CommitsTold deeds := by
  cases h with
  | unstaged e => simp [CommitsTold, told, Deed.event?]
  | conflict => simp [CommitsTold, told, Deed.event?]
  | @sent writer _ _ _ _ ending _ sending ends =>
    cases sending with
    | @intro program _ _ during _ plays conveys =>
      have opened : CommitsTold
          [.event r (.downloading r.remoteUrl), .stage r.fileKey (.ok (some writer)),
            (.transfer r.remoteUrl program : Deed R Wr S I)] := by
        simp [CommitsTold, told, Deed.event?]
      exact opened.append (conveys.commitsTold.append ends.commitsTold)

theorem Locate.commitsTold {outcome : Except (FetchFault E) (Option (R × Provenance))}
    (h : Locate r deeds outcome) : CommitsTold deeds := by
  cases h with
  | fault look => exact look.idle.commitsTold
  | found look => exact look.idle.commitsTold
  | downloaded look download => exact look.idle.commitsTold.append download.commitsTold

theorem Course.commitsTold {f : Fetcher W R Wr S I E} {w : W} {result : FetchResult I E}
    {left : Session W} (h : Course f r w deeds result left) : CommitsTold deeds := by
  have started : Idle [(.event r (.started r.fileKey) : Deed R Wr S I)] := by
    simp [Deed.handlesWriter, Deed.reportsWriter]
  have unavailable : Idle [(.event r .unavailable : Deed R Wr S I)] := by
    simp [Deed.handlesWriter, Deed.reportsWriter]
  cases h with
  | fault locate => exact started.commitsTold.append locate.commitsTold
  | missing locate =>
    exact started.commitsTold.append (locate.commitsTold.append unavailable.commitsTold)
  | found locate leads decode =>
    exact started.commitsTold.append (locate.commitsTold.append decode.idle.commitsTold)

end

/-- The codec, on the entry that the search had found last, gives this size. -/
def Fetcher.FindsSize (f : Fetcher W R Wr S I E) (r : Request) (w : W) (origin : Size) : Prop :=
  ∃ before more key entry w₁ left, f.trace r w = before ++ more ∧
    (calls before).getLast? = some (.read key (.ok (some entry))) ∧ f.Leads w before w₁ ∧
    f.bufferedEntry.run f.codec.boundsSeekable (Buffered.start entry, w₁) = (.ok origin, left)

/-- How a fetch is told, with its result and what becomes of the request. -/
inductive Tells (f : Fetcher W R Wr S I E) (r : Request) (w : W) : List Event →
    FetchResult I E → Request → Prop
  | halted {words : List Event} (e : Fault) (halts : Halts r words) :
      Tells f r w words (.error (.store e)) r
  | missing {words : List Event} (misses : Misses r words) :
      Tells f r w (words ++ [.unavailable]) (.ok none) r
  | silent {words : List Event} (fault : FetchFault E) (finds : Finds r words) :
      Tells f r w words (.error fault) r
  | decoding {words : List Event} {origin : Size} {result : FetchResult I E} (finds : Finds r words)
      (size : f.FindsSize r w origin) (image : result ≠ .ok none)
      (plan : ∀ fetched, result = .ok (some fetched) →
        fetched.plan = DecodePlan.choose origin r.target) :
      Tells f r w (words ++ [.decoding origin (DecodePlan.choose origin r.target).factor]) result
        (r.recordOrigin origin)

namespace Tells

variable {f : Fetcher W R Wr S I E} {r after : Request} {w : W} {words : List Event}
  {result : FetchResult I E}

theorem word (h : Tells f r w words result after) : Word r words := by
  cases h with
  | halted e halts => exact halts.word
  | missing misses => exact misses.word
  | silent fault finds => simpa using finds.word .nothing
  | decoding finds size image plan => exact finds.word (.decoding _)

theorem empty (h : Tells f r w words result after) :
    result = .ok none ↔ words.getLast? = some .unavailable := by
  cases h with
  | halted e halts =>
    refine ⟨nofun, fun hl => ?_⟩
    exact nomatch halts.inconclusive _ (List.mem_of_getLast? hl)
  | missing misses => simp
  | silent fault finds =>
    refine ⟨nofun, fun hl => ?_⟩
    exact nomatch finds.inconclusive _ (List.mem_of_getLast? hl)
  | decoding finds size image plan => simp [image]

theorem image (h : Tells f r w words result after) {fetched : Fetched I}
    (hr : result = .ok (some fetched)) :
    words.getLast? = some (.decoding fetched.plan.origin fetched.plan.factor) ∧
      fetched.plan.target = r.target := by
  cases h with
  | decoding finds size image plan => simp [plan fetched hr, DecodePlan.choose]
  | _ => cases hr

theorem size (h : Tells f r w words result after) {origin : Size} {factor : UInt32}
    (hd : .decoding origin factor ∈ words) :
    f.FindsSize r w origin ∧ after = r.recordOrigin origin := by
  cases h with
  | halted e halts => exact nomatch halts.inconclusive _ hd
  | missing misses =>
    rcases List.mem_append.mp hd with hd | hd
    · exact nomatch misses.inconclusive _ hd
    · cases List.mem_singleton.mp hd
  | silent fault finds => exact nomatch finds.inconclusive _ hd
  | decoding finds size image plan =>
    rcases List.mem_append.mp hd with hd | hd
    · exact nomatch finds.inconclusive _ hd
    · cases List.mem_singleton.mp hd
      exact ⟨size, rfl⟩

theorem untouched (h : Tells f r w words result after)
    (hd : ∀ origin factor, .decoding origin factor ∉ words) : after = r := by
  cases h with
  | decoding finds size image plan =>
    exact absurd (List.mem_append_right _ (List.mem_singleton_self _)) (hd _ _)
  | _ => rfl

end Tells

end ImageCache
