import ImageCache.Proofs.Fetch.Judging
import ImageCache.Proofs.Fetch.Procurement

namespace ImageCache

open Fetcher

variable {W R Wr S I E : Type}

/-- An entry with these bytes is decoded, and this comes of it. -/
inductive Shows (f : Fetcher W R Wr S I E) (v : StoreView W R Wr) (r : Request) (bytes : ByteArray)
    (provenance : Provenance) : FetchResult I E → Session W → Prop
  | intro {entry : R} {w : W} {deeds : List (Deed R Wr S I)}
      {outcome : Except (FetchFault E) (I × DecodePlan)} {left : Session W} (sound : v.sound w)
      (ahead : v.ahead bytes (entry, w) bytes)
      (decode : Decode f entry ⟨r, w⟩ deeds outcome left) :
      Shows f v r bytes provenance
        (outcome.map fun (image, plan) => some ⟨image, provenance, plan⟩) left

/-- The result that a verdict on bytes of this provenance makes. -/
def Judgement.result (j : Judgement I E) (r : Request) (bytes : ByteArray)
    (provenance : Provenance) : FetchResult I E :=
  match j.verdict r.target bytes with
  | .ok (image, plan) => .ok (some ⟨image, provenance, plan⟩)
  | .error e => .error (.decode e)

theorem Shows.verdict {f : Fetcher W R Wr S I E} {v : StoreView W R Wr} {j : Judgement I E}
    {r : Request} {bytes : ByteArray} {provenance : Provenance} {result : FetchResult I E}
    {left : Session W} (h : Dependable f v) (judges : Judges f v j)
    (shows : Shows f v r bytes provenance result left) :
    result = j.result r bytes provenance ∧ left.request = j.record bytes r := by
  cases shows with
  | intro sound ahead decode =>
    obtain ⟨rfl, hr⟩ := decode.verdict h judges sound ahead
    refine ⟨?_, hr⟩
    rw [Judgement.result]
    cases j.verdict r.target bytes with
    | error e => rfl
    | ok found => rfl

/-- The ways in which a fetch can come out. -/
inductive Fares (f : Fetcher W R Wr S I E) (v : StoreView W R Wr) (r : Request) (w : W) :
    List (Deed R Wr S I) → FetchResult I E → Session W → Prop
  | stored {deeds : List (Deed R Wr S I)} {result : FetchResult I E} {left : Session W}
      {bytes : ByteArray} {provenance : Provenance}
      (there : v.search w r.places = some (bytes, provenance)) (marks : landmarks deeds = [.hit])
      (asks : asked deeds = []) (idle : ∀ deed ∈ deeds, deed.handlesWriter = false)
      (same : v.Same w left.world) (shows : Shows f v r bytes provenance result left) :
      Fares f v r w deeds result left
  | downloaded {deeds : List (Deed R Wr S I)} {result : FetchResult I E} {left : Session W}
      {program : Transfer} {talk : Talk} (absent : v.search w r.places = none)
      (free : ¬ v.held w r.fileKey) (marks : landmarks deeds = [.committed])
      (asks : asked deeds = [.transfer r.remoteUrl program]) (plays : program.Plays talk (.ok ()))
      (smooth : ∀ said ∈ talk, said.Smooth) (took : Deed.accepted deeds = talk.accepted)
      (closed : v.Closed r.fileKey (some talk.accepted) w left.world)
      (shows : Shows f v r talk.accepted .network result left) : Fares f v r w deeds result left
  | brokeOff {deeds : List (Deed R Wr S I)} {program : Transfer} {talk : Talk} {e : Fault}
      {w' : W} (absent : v.search w r.places = none) (free : ¬ v.held w r.fileKey)
      (marks : landmarks deeds = [.brokeOff])
      (asks : asked deeds = [.transfer r.remoteUrl program])
      (plays : program.Plays talk (.error e)) (smooth : ∀ said ∈ talk, said.Smooth)
      (same : v.Same w w') : Fares f v r w deeds (.ok none) ⟨r, w'⟩
  | conflict {deeds : List (Deed R Wr S I)} {w' : W} (absent : v.search w r.places = none)
      (held : v.held w r.fileKey) (plain : Plain deeds) (same : v.Same w w') :
      Fares f v r w deeds (.ok none) ⟨r, w'⟩

section

variable {f : Fetcher W R Wr S I E} {v : StoreView W R Wr} {r : Request} {w w₁ w' : W}

/-- A download is not changed by what came before it. -/
theorem Procured.behind {first deeds : List (Deed R Wr S I)}
    {outcome : Except (FetchFault E) (Option R)} (h : Procured v r w₁ w' deeds outcome)
    (plain : Plain first) (idle : ∀ deed ∈ first, deed.handlesWriter = false)
    (same : v.Same w w₁) : Procured v r w w' (first ++ deeds) outcome := by
  have held := same.held _ r.fileKey_isDiskKey
  cases h with
  | conflict hh plain' same' =>
    exact .conflict (held.mp hh) (plain.append plain') (same.trans same')
  | committed free marks asks plays smooth took closed ahead =>
    refine .committed (mt held.mpr free) ?_ ?_ plays smooth ?_ (same.closed closed) ahead
    · exact landmarks_joined plain.1 marks
    · exact asked_joined plain.2 asks
    · rw [Deed.accepted_append, accepted_unhandled idle, ByteArray.empty_append, took]
  | brokeOff free marks asks plays smooth same' =>
    refine .brokeOff (mt held.mpr free) ?_ ?_ plays smooth (same.trans same')
    · exact landmarks_joined plain.1 marks
    · exact asked_joined plain.2 asks

/-- Whatever becomes of the bytes, they were found in the store or a download was tried. -/
theorem Locate.fares (h : Dependable f v) (hs : v.sound w) {deeds : List (Deed R Wr S I)}
    {outcome : Except (FetchFault E) (Option (R × Provenance))} (locate : Locate r deeds outcome)
    (leads : f.Leads w deeds w') :
    (∃ bytes provenance entry, outcome = .ok (some (entry, provenance)) ∧
      v.search w r.places = some (bytes, provenance) ∧ landmarks deeds = [.hit] ∧
      asked deeds = [] ∧ (∀ deed ∈ deeds, deed.handlesWriter = false) ∧ v.Keeps w w' ∧
      v.ahead bytes (entry, w') bytes) ∨
    (∃ found, outcome = found.map (·.map (·, .network)) ∧ v.search w r.places = none ∧
      Procured v r w w' deeds found) := by
  cases locate with
  | fault look =>
    obtain ⟨-, sought⟩ := look.sought h hs leads
    generalize v.search w r.places = found at sought
    generalize landmarks deeds = marks at sought
    cases sought
  | found look =>
    have idle := fun deed hd => (look.idle deed hd).1
    have keeps := h.leads_quiet hs idle leads
    obtain ⟨asks, sought⟩ := look.sought h hs leads
    generalize hsearch : v.search w r.places = found at sought
    generalize hmarks : landmarks deeds = marks at sought
    cases sought with
    | there ahead => exact .inl ⟨_, _, _, rfl, rfl, rfl, asks, idle, keeps, ahead⟩
  | @downloaded first more found look download =>
    obtain ⟨w₁, hlook, hdownload⟩ := leads_append.mp leads
    have idle := fun deed hd => (look.idle deed hd).1
    have keeps := h.leads_quiet hs idle hlook
    obtain ⟨asks, sought⟩ := look.sought h hs hlook
    generalize hsearch : v.search w r.places = places at sought
    generalize hmarks : landmarks first = marks at sought
    cases sought with
    | absent =>
      exact .inr ⟨found, rfl, rfl,
        (download.procured h keeps.sound hdownload).behind ⟨hmarks, asks⟩ idle keeps.toSame⟩

end

/-- Every fetch on a dependable store comes out in one of the four ways. -/
theorem fetch_fares {f : Fetcher W R Wr S I E} {v : StoreView W R Wr} (h : Dependable f v)
    {w : W} (hs : v.sound w) (r : Request) :
    ∃ result left, f.fetch r w = ((result, left.request), left.world) ∧
      f.Leads w (f.trace r w) left.world ∧ Fares f v r w (f.trace r w) result left := by
  obtain ⟨outcome, left, hf, -, leads, course⟩ := f.fetch_course r w
  refine ⟨outcome, left, hf, leads, ?_⟩
  have start : Plain [(.event r (.started r.fileKey) : Deed R Wr S I)] := ⟨rfl, rfl⟩
  generalize f.trace r w = trace at leads course
  cases course with
  | fault locate =>
    obtain ⟨w₁, htold, hrest⟩ := leads
    have keeps := h.quiet hs rfl htold
    rcases locate.fares h keeps.sound hrest with
      ⟨bytes, provenance, entry, ho, -⟩ | ⟨found, ho, -, procured⟩
    · cases ho
    · cases procured with
      | conflict => cases ho
      | committed => cases ho
      | brokeOff => cases ho
  | @missing deeds w' locate =>
    obtain ⟨w₁, htold, hrest⟩ := leads
    obtain ⟨w₂, hlocate, hlast⟩ := leads_append.mp hrest
    have keeps := h.quiet hs rfl htold
    rcases locate.fares h keeps.sound hlocate with
      ⟨bytes, provenance, entry, ho, -⟩ | ⟨found, ho, absent, procured⟩
    · cases ho
    · rw [keeps.search r.places_isDiskKey] at absent
      have procured := procured.behind start
        (by simp [Deed.handlesWriter]) keeps.toSame
      cases procured with
      | committed => cases ho
      | conflict held plain same =>
        have after := h.quiet same.sound rfl (leads_single.mp hlast)
        exact .conflict absent held (plain.append ⟨rfl, rfl⟩) (same.trans after.toSame)
      | brokeOff free marks asks plays smooth same =>
        have after := h.quiet same.sound rfl (leads_single.mp hlast)
        refine .brokeOff absent free ?_ ?_ plays smooth (same.trans after.toSame)
        · change landmarks (([.event r (.started r.fileKey)] ++ deeds) ++ _) = _
          exact landmarks_joined marks rfl
        · change asked (([.event r (.started r.fileKey)] ++ deeds) ++ _) = _
          exact asked_joined asks rfl
  | @found deeds more entry provenance w₁ outcome left locate leads' decode =>
    obtain ⟨w₂, hbefore, hdecode⟩ :=
      leads_append.mp (show f.Leads w ((_ :: deeds) ++ more) left.world from leads)
    obtain rfl := leads_unique leads' hbefore
    obtain ⟨w₀, htold, hlocate⟩ := leads'
    have keeps := h.quiet hs rfl htold
    rcases locate.fares h keeps.sound hlocate with
      ⟨bytes, _, _, ho, there, marks, asks, idle, keeps', ahead⟩ | ⟨found, ho, absent, procured⟩
    · cases ho
      rw [keeps.search r.places_isDiskKey] at there
      have quiet := fun deed hd => (decode.idle deed hd).1
      have after := (keeps.trans keeps').trans (h.leads_quiet keeps'.sound quiet hdecode)
      refine .stored there ?_ ?_ ?_ after.toSame (.intro keeps'.sound ahead decode)
      · change landmarks (deeds ++ more) = _
        exact landmarks_joined marks decode.plain.1
      · change asked (deeds ++ more) = _
        exact asked_joined asks decode.plain.2
      · exact List.forall_mem_cons.mpr ⟨rfl, List.forall_mem_append.mpr ⟨idle, quiet⟩⟩
    · rw [keeps.search r.places_isDiskKey] at absent
      have procured := procured.behind start
        (by simp [Deed.handlesWriter]) keeps.toSame
      cases procured with
      | conflict => cases ho
      | brokeOff => cases ho
      | committed free marks asks plays smooth took closed ahead =>
        cases ho
        have quiet := fun deed hd => (decode.idle deed hd).1
        have after := h.leads_quiet closed.sound quiet hdecode
        refine .downloaded absent free ?_ ?_ plays smooth ?_
          (closed.same r.fileKey_isDiskKey after.toSame) (.intro closed.sound ahead decode)
        · change landmarks (([.event r (.started r.fileKey)] ++ deeds) ++ more) = _
          exact landmarks_joined marks decode.plain.1
        · change asked (([.event r (.started r.fileKey)] ++ deeds) ++ more) = _
          exact asked_joined asks decode.plain.2
        · change Deed.accepted (([.event r (.started r.fileKey)] ++ deeds) ++ more) = _
          rw [Deed.accepted_append, took, accepted_unhandled quiet, ByteArray.append_empty]

section Consequences

variable {f : Fetcher W R Wr S I E} {v : StoreView W R Wr} {w : W} {r : Request}
  {bytes : ByteArray} {provenance : Provenance}

theorem fetch_sound (h : Dependable f v) (hs : v.sound w) (r : Request) :
    v.sound (f.fetch r w).2 := by
  obtain ⟨result, left, hf, -, fares⟩ := fetch_fares h hs r
  rw [hf]
  generalize f.trace r w = deeds at fares
  cases fares with
  | stored there marks asks idle same shows => exact same.sound
  | downloaded absent free marks asks plays smooth took closed shows => exact closed.sound
  | brokeOff absent free marks asks plays smooth same => exact same.sound
  | conflict absent held plain same => exact same.sound

/-- What the store has is decoded, and neither the source nor a writer is asked for anything. -/
theorem fetch_stored (h : Dependable f v) (hs : v.sound w)
    (there : v.search w r.places = some (bytes, provenance)) :
    asked (f.trace r w) = [] ∧ (∀ deed ∈ f.trace r w, deed.handlesWriter = false) ∧
      Shows f v r bytes provenance (f.fetch r w).1.1 ⟨(f.fetch r w).1.2, (f.fetch r w).2⟩ := by
  obtain ⟨result, left, hf, -, fares⟩ := fetch_fares h hs r
  rw [hf]
  generalize f.trace r w = deeds at fares ⊢
  cases fares with
  | stored there' marks asks idle same shows =>
    rw [there] at there'
    cases there'
    exact ⟨asks, idle, shows⟩
  | downloaded absent =>
    rw [there] at absent
    cases absent
  | brokeOff absent =>
    rw [there] at absent
    cases absent
  | conflict absent =>
    rw [there] at absent
    cases absent

/-- What is found is the rendition itself or one that may stand in. -/
theorem StoreView.search_provenance (there : v.search w r.places = some (bytes, provenance)) :
    provenance = .diskExact ∨ ∃ tag ∈ r.reuseTags, provenance = .reuse tag := by
  obtain ⟨place, hm, hp⟩ := List.exists_of_findSome?_eq_some there
  obtain ⟨bytes', -, hp⟩ := Option.map_eq_some_iff.mp hp
  obtain ⟨-, rfl⟩ := Prod.mk.inj hp
  rcases List.mem_cons.mp hm with rfl | hm
  · exact .inl rfl
  · obtain ⟨tag, ht, rfl⟩ := List.mem_map.mp hm
    exact .inr ⟨tag, ht, rfl⟩

theorem Shows.provenance_eq {result : FetchResult I E} {left : Session W} {fetched : Fetched I}
    (shows : Shows f v r bytes provenance result left) (hr : result = .ok (some fetched)) :
    fetched.provenance = provenance := by
  cases shows with
  | @intro _ _ _ outcome _ sound ahead decode =>
    cases outcome with
    | error e => cases hr
    | ok found =>
      cases hr
      rfl

/-- Where the image came from the network, the bytes that were committed for it are in the store. -/
theorem fetch_network (h : Dependable f v) (hs : v.sound w) {fetched : Fetched I}
    (result : (f.fetch r w).1.1 = .ok (some fetched)) (network : fetched.provenance = .network) :
    v.entry (f.fetch r w).2 r.fileKey = some (Deed.accepted (f.trace r w)) ∧
      Shows f v r (Deed.accepted (f.trace r w)) .network (f.fetch r w).1.1
        ⟨(f.fetch r w).1.2, (f.fetch r w).2⟩ := by
  obtain ⟨outcome, left, hf, -, fares⟩ := fetch_fares h hs r
  rw [hf] at result ⊢
  generalize f.trace r w = deeds at fares ⊢
  cases fares with
  | stored there marks asks idle same shows =>
    -- What is found in the store never calls itself the network's.
    rw [shows.provenance_eq result] at network
    rcases v.search_provenance there with rfl | ⟨tag, -, rfl⟩
    · cases network
    · cases network
  | downloaded absent free marks asks plays smooth took closed shows =>
    rw [took]
    exact ⟨closed.own, shows⟩
  | brokeOff => cases result
  | conflict => cases result

end Consequences

end ImageCache
