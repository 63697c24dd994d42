import ImageCache.Proofs.Fetch.Conduct
import ImageCache.Proofs.Fetch.Serving

namespace ImageCache

open Fetcher

variable {W R Wr S I E : Type}

namespace Fetcher

/-- What a program of the source delivers into a writer: the bytes that this took if the program
ended well, and else nothing. -/
def delivery (f : Fetcher W R Wr S I E) (program : Transfer) (writer : Wr) (start : W) :
    Option ByteArray :=
  match (f.store.writer.run program (writer, start)).1 with
  | .ok () => some (f.store.writer.talk program (writer, start)).accepted
  | .error _ => none

/-- The source sets out to send a resource into a fresh writer of the store. -/
inductive Begins (f : Fetcher W R Wr S I E) (v : StoreView W R Wr) (serving : W → Prop)
    (url : String) : Transfer → Wr → W → Prop
  | intro {w start : W} {key : String} {program : Transfer} {writer : Wr} (serves : serving w)
      (sound : v.sound w) (fresh : v.filling w writer key .empty)
      (sends : f.Does w (.transfer url program) start) : Begins f v serving url program writer start

/-- As long as these worlds last, what the source delivers depends on the address alone, and nothing
that the fetcher does puts an end to them. -/
structure Constant (f : Fetcher W R Wr S I E) (v : StoreView W R Wr) (serving : W → Prop) :
    Prop where
  stays : ∀ {w w' : W} {deed : Deed R Wr S I}, serving w → f.Does w deed w' → serving w'
  alike : ∀ {url : String} {program program' : Transfer} {writer writer' : Wr} {start start' : W},
    f.Begins v serving url program writer start → f.Begins v serving url program' writer' start' →
      f.delivery program writer start = f.delivery program' writer' start'

end Fetcher

def Judgement.received (j : Judgement I E) (r : Request) :
    Option ByteArray → FetchResult I E × Request
  | some bytes => (j.result r bytes .network, j.record bytes r)
  | none => (.ok none, r)

/-- What a fetch comes to that finds no key held: it shows what the store has for it, or else asks
the source and stores what that delivers. -/
inductive Comes (f : Fetcher W R Wr S I E) (v : StoreView W R Wr) (j : Judgement I E)
    (serving : W → Prop) (r : Request) (w : W) : FetchResult I E × Request → W → Prop
  | stored {bytes : ByteArray} {provenance : Provenance} {w' : W}
      (there : v.search w r.places = some (bytes, provenance)) (same : v.Same w w') :
      Comes f v j serving r w (j.result r bytes provenance, j.record bytes r) w'
  | asked {program : Transfer} {writer : Wr} {start w' : W}
      (absent : v.search w r.places = none)
      (begins : f.Begins v serving r.remoteUrl program writer start)
      (closed : v.Closed r.fileKey (f.delivery program writer start) w w') :
      Comes f v j serving r w (j.received r (f.delivery program writer start)) w'

namespace Deed

theorem landmark_committed {deed : Deed R Wr S I} (h : deed.landmark = some .committed) :
    ∃ writer, deed = .commit writer (.ok ()) := by
  cases deed with
  | commit writer reply =>
    cases reply with
    | ok _ => exact ⟨writer, rfl⟩
    | error e => cases h
  | event r e => cases e <;> cases h
  | _ => cases h

theorem landmark_brokeOff {deed : Deed R Wr S I} (h : deed.landmark = some .brokeOff) :
    ∃ r message, deed = .event r (.downloadFailed message) := by
  cases deed with
  | event r e =>
    cases e with
    | downloadFailed message => exact ⟨r, message, rfl⟩
    | _ => cases h
  | commit writer reply => cases reply <;> cases h
  | _ => cases h

end Deed

theorem mem_landmarks {deeds : List (Deed R Wr S I)} {mark : Landmark}
    (h : landmarks deeds = [mark]) : ∃ deed ∈ deeds, deed.landmark = some mark := by
  have hm : mark ∈ landmarks deeds := by simp [h]
  exact List.mem_filterMap.mp hm

namespace Fetcher

section

variable {f : Fetcher W R Wr S I E} {v : StoreView W R Wr} {serving : W → Prop} {w w' : W}
  {r : Request}

theorem Constant.leads (h : f.Constant v serving) {deeds : List (Deed R Wr S I)} (hw : serving w)
    (leads : f.Leads w deeds w') : serving w' :=
  leads_keeps (fun _ _ _ _ => h.stays) hw leads

/-- A fetch that committed or broke off had the source write. -/
theorem sends_of_landmark {mark : Landmark} (h : landmarks (f.trace r w) = [mark])
    (hm : mark ≠ .hit) : ∃ program writer start, f.Sends r w program writer start := by
  obtain ⟨deed, hd, hl⟩ := mem_landmarks h
  have concludes : deed.concludes = true := by
    cases mark with
    | hit => exact absurd rfl hm
    | committed =>
      obtain ⟨writer, rfl⟩ := Deed.landmark_committed hl
      rfl
    | brokeOff =>
      obtain ⟨s, message, rfl⟩ := Deed.landmark_brokeOff hl
      rfl
  obtain ⟨_, _, -, -, -, course⟩ := f.fetch_course r w
  exact sends_of_opened (course.life.opened hd concludes)

end

namespace Sends

variable {f : Fetcher W R Wr S I E} {v : StoreView W R Wr} {serving : W → Prop} {r : Request}
  {w start : W} {program : Transfer} {writer : Wr}

/-- The writer that a fetch has the source write into is a fresh one. -/
theorem begins (sends : f.Sends r w program writer start) (h : Dependable f v)
    (constant : f.Constant v serving) (hs : v.sound w) (hw : serving w)
    (free : ¬ v.held w r.fileKey) : f.Begins v serving r.remoteUrl program writer start := by
  obtain ⟨before, during, ending, result, last, w', -, idle, leads, -⟩ := sends.conducted
  obtain ⟨w₁, hbefore, w₂, hstage, hsend⟩ := leads_append.mp leads
  have hk := r.fileKey_isDiskKey
  have keeps := h.leads_quiet hs (fun deed hd => (idle deed hd).1) hbefore
  have serves : serving w₂ := constant.stays (constant.leads hw hbefore) hstage
  rcases h.stage_answers keeps.sound hk hstage with ⟨held, -⟩ | ⟨-, opened, hr, fresh, opens⟩
  · exact absurd ((keeps.held _ hk).mp held) free
  · obtain rfl : writer = opened := Option.some.inj (Except.ok.inj hr)
    exact .intro serves opens.sound fresh (leads_single.mp hsend)

/-- What was committed is what was delivered. -/
theorem delivery_committed (sends : f.Sends r w program writer start)
    (committed : landmarks (f.trace r w) = [.committed]) :
    f.delivery program writer start = some (Deed.accepted (f.trace r w)) := by
  obtain ⟨deed, hd, hl⟩ := mem_landmarks committed
  obtain ⟨last, rfl⟩ := Deed.landmark_committed hl
  rw [sends.accepted, delivery]
  cases hr : (f.store.writer.run program (writer, start)).1 with
  | ok _ => rfl
  | error e => exact absurd hd ((sends.aborted hr).1 last _)

theorem delivery_brokeOff (sends : f.Sends r w program writer start)
    (brokeOff : landmarks (f.trace r w) = [.brokeOff]) :
    f.delivery program writer start = none := by
  obtain ⟨deed, hd, hl⟩ := mem_landmarks brokeOff
  obtain ⟨s, message, rfl⟩ := Deed.landmark_brokeOff hl
  obtain ⟨_, _, -, -, -, course⟩ := f.fetch_course r w
  obtain ⟨e, hr⟩ := sends.error_of_uncommitted (course.life.uncommitted hd)
  rw [delivery, hr]

end Sends

end Fetcher

section Two

variable {f : Fetcher W R Wr S I E} {v : StoreView W R Wr} {j : Judgement I E}
  {serving : W → Prop} {w w' : W} {r first second : Request}

/-- Where nothing was found, there is no entry of the very rendition either. -/
theorem StoreView.entry_of_absent (h : v.search w r.places = none) :
    v.entry w r.fileKey = none := by
  cases he : v.entry w r.fileKey with
  | none => rfl
  | some bytes =>
    rw [Request.places, search_found he] at h
    cases h

/-- A free key without an entry that stays as it is might as well have been closed. -/
theorem StoreView.Same.closed_free (h : v.Same w w') {key : String} (hk : IsDiskKey key)
    (free : ¬ v.held w key) : v.Closed key (v.entry w key) w w' where
  sound := h.sound
  own := h.entry key hk
  entry other ho _ := h.entry other ho
  held other ho := by
    rw [h.held other ho]
    refine ⟨fun hh => ⟨hh, ?_⟩, fun hh => hh.1⟩
    rintro rfl
    exact free hh

theorem fetch_comes (h : Dependable f v) (judges : Judges f v j) (constant : f.Constant v serving)
    (hs : v.sound w) (hw : serving w) (free : ¬ v.held w r.fileKey) :
    Comes f v j serving r w (f.fetch r w).1 (f.fetch r w).2 ∧ serving (f.fetch r w).2 := by
  obtain ⟨result, left, hf, leads, fares⟩ := fetch_fares h hs r
  rw [hf]
  refine ⟨?_, constant.leads hw leads⟩
  generalize ht : f.trace r w = deeds at fares
  cases fares with
  | stored there marks asks idle same shows =>
    obtain ⟨rfl, hr⟩ := shows.verdict h judges
    rw [hr]
    exact .stored there same
  | @downloaded _ _ _ talk absent _ marks asks plays smooth took closed shows =>
    obtain ⟨rfl, hr⟩ := shows.verdict h judges
    rw [← ht] at marks took
    obtain ⟨program, writer, start, sends⟩ := sends_of_landmark marks nofun
    have hd : f.delivery program writer start = some talk.accepted := by
      rw [sends.delivery_committed marks, took]
    have comes : Comes f v j serving r w (j.received r (f.delivery program writer start))
        left.world := .asked absent (sends.begins h constant hs hw free) (hd ▸ closed)
    rw [hd] at comes
    rwa [hr]
  | brokeOff absent _ marks asks plays smooth same =>
    rw [← ht] at marks
    obtain ⟨program, writer, start, sends⟩ := sends_of_landmark marks nofun
    have hd := sends.delivery_brokeOff marks
    have closed := same.closed_free r.fileKey_isDiskKey free
    rw [v.entry_of_absent absent, ← hd] at closed
    have comes := Comes.asked (j := j) absent (sends.begins h constant hs hw free) closed
    rwa [hd] at comes
  | conflict absent held => exact absurd held free

namespace Comes

variable {out out' : FetchResult I E × Request} {w₁ w₂ w₁' w₂' : W}

theorem sound (comes : Comes f v j serving r w out w') : v.sound w' := by
  cases comes with
  | stored there same => exact same.sound
  | asked absent begins closed => exact closed.sound

/-- Every entry but that of the very rendition stays as it is. -/
theorem entry (comes : Comes f v j serving r w out w') {key : String} (hk : IsDiskKey key)
    (hne : key ≠ r.fileKey) : v.entry w' key = v.entry w key := by
  cases comes with
  | stored there same => exact same.entry key hk
  | asked absent begins closed => exact closed.entry key hk hne

theorem free (comes : Comes f v j serving r w out w') {key : String} (hk : IsDiskKey key)
    (free : ¬ v.held w key) : ¬ v.held w' key := by
  cases comes with
  | stored there same => exact mt (same.held key hk).mp free
  | asked absent begins closed => exact fun held => free ((closed.held key hk).mp held).1

/-- Two fetches for a request that find the same in its places come to the same and leave the same
entry of its rendition. -/
theorem agree (constant : f.Constant v serving) (one : Comes f v j serving r w₁ out w₁')
    (other : Comes f v j serving r w₂ out' w₂')
    (places : ∀ place ∈ r.places, v.entry w₂ place.1 = v.entry w₁ place.1) :
    out' = out ∧ v.entry w₂' r.fileKey = v.entry w₁' r.fileKey := by
  have found := v.search_congr places
  have own : v.entry w₂ r.fileKey = v.entry w₁ r.fileKey :=
    places (r.fileKey, .diskExact) List.mem_cons_self
  cases one with
  | stored there same =>
    cases other with
    | stored there' same' =>
      obtain ⟨rfl, rfl⟩ := Prod.mk.inj (Option.some.inj (there'.symm.trans (found.trans there)))
      have hk := r.fileKey_isDiskKey
      exact ⟨rfl, (same'.entry _ hk).trans (own.trans (same.entry _ hk).symm)⟩
    | asked absent' => cases absent'.symm.trans (found.trans there)
  | asked absent begins closed =>
    cases other with
    | stored there' => cases there'.symm.trans (found.trans absent)
    | asked absent' begins' closed' =>
      have same := constant.alike begins' begins
      rw [same]
      exact ⟨rfl, closed'.own.trans (same.trans closed.own.symm)⟩

end Comes

/-- What a fetch comes to, and the entry of its rendition, are not changed by a fetch before it that
wrote to none of its places. -/
theorem fetch_after (h : Dependable f v) (judges : Judges f v j) (constant : f.Constant v serving)
    (hs : v.sound w) (hw : serving w) (free : ∀ key, IsDiskKey key → ¬ v.held w key)
    (apart : first.fileKey ∉ second.places.map (·.1)) :
    (f.fetch second (f.fetch first w).2).1 = (f.fetch second w).1 ∧
      v.entry (f.fetch second (f.fetch first w).2).2 second.fileKey =
        v.entry (f.fetch second w).2 second.fileKey := by
  have hk := second.fileKey_isDiskKey
  obtain ⟨before, hw₁⟩ :=
    fetch_comes h judges constant hs hw (free _ first.fileKey_isDiskKey)
  obtain ⟨alone, -⟩ := fetch_comes h judges constant hs hw (free _ hk)
  obtain ⟨behind, -⟩ :=
    fetch_comes h judges constant before.sound hw₁ (before.free hk (free _ hk))
  refine alone.agree constant behind fun place hp => ?_
  refine before.entry (second.places_isDiskKey place hp) ?_
  intro he
  exact apart (he ▸ List.mem_map_of_mem hp)

/-- Two fetches, neither of which writes to a place where the other looks, come to the same in
either order, leave the same entries behind and hold no key. -/
theorem fetches_commute (h : Dependable f v) (judges : Judges f v j)
    (constant : f.Constant v serving) (hs : v.sound w) (hw : serving w)
    (free : ∀ key, IsDiskKey key → ¬ v.held w key)
    (apart : first.fileKey ∉ second.places.map (·.1))
    (apart' : second.fileKey ∉ first.places.map (·.1)) :
    (f.fetch second (f.fetch first w).2).1 = (f.fetch second w).1 ∧
      (f.fetch first (f.fetch second w).2).1 = (f.fetch first w).1 ∧
      ∀ key, IsDiskKey key →
        v.entry (f.fetch second (f.fetch first w).2).2 key =
            v.entry (f.fetch first (f.fetch second w).2).2 key ∧
          ¬ v.held (f.fetch second (f.fetch first w).2).2 key ∧
          ¬ v.held (f.fetch first (f.fetch second w).2).2 key := by
  obtain ⟨result, entry⟩ := fetch_after h judges constant hs hw free apart
  obtain ⟨result', entry'⟩ := fetch_after h judges constant hs hw free apart'
  refine ⟨result, result', fun key hk => ?_⟩
  have hfirst := first.fileKey_isDiskKey
  have hsecond := second.fileKey_isDiskKey
  obtain ⟨one, hw₁⟩ := fetch_comes h judges constant hs hw (free _ hfirst)
  obtain ⟨other, hw₂⟩ := fetch_comes h judges constant hs hw (free _ hsecond)
  obtain ⟨otherLast, -⟩ :=
    fetch_comes h judges constant one.sound hw₁ (one.free hsecond (free _ hsecond))
  obtain ⟨oneLast, -⟩ :=
    fetch_comes h judges constant other.sound hw₂ (other.free hfirst (free _ hfirst))
  refine ⟨?_, otherLast.free hk (one.free hk (free key hk)),
    oneLast.free hk (other.free hk (free key hk))⟩
  -- An entry is that of the one rendition, of the other, or of neither.
  by_cases hksecond : key = second.fileKey
  · have hne : key ≠ first.fileKey := by
      intro he
      rw [← he, hksecond] at apart
      exact apart List.mem_cons_self
    rw [oneLast.entry hk hne, hksecond, entry]
  · rw [otherLast.entry hk hksecond]
    by_cases hkfirst : key = first.fileKey
    · rw [hkfirst, entry']
    · rw [oneLast.entry hk hkfirst, one.entry hk hkfirst, other.entry hk hksecond]

end Two

/-- Whatever a sink without faults takes at a time, the transfer delivers this. -/
def Transfer.Delivers (t : Transfer) (delivered : Option ByteArray) : Prop :=
  ∀ (talk : Talk) (result : Except Fault Unit), t.Plays talk result →
    (∀ said ∈ talk, said.Smooth) →
      delivered = match result with
        | .ok () => some talk.accepted
        | .error _ => none

theorem Transfer.Sends.delivers {t : Transfer} {bytes : ByteArray} (h : t.Sends bytes) :
    t.Delivers (some bytes) := by
  intro talk result plays smooth
  obtain ⟨rfl, rfl⟩ := h talk result plays smooth
  rfl

theorem Transfer.delivers_error (e : Fault) : Transfer.Delivers (pure (.error e)) none := by
  intro talk result plays smooth
  cases plays
  rfl

namespace Fetcher

variable {f : Fetcher W R Wr S I E} {v : StoreView W R Wr} {serving : W → Prop}

theorem Begins.delivery (h : Dependable f v) {url : String} {program : Transfer} {writer : Wr}
    {start : W} {delivered : Option ByteArray}
    (begins : f.Begins v serving url program writer start) (sends : program.Delivers delivered) :
    f.delivery program writer start = delivered := by
  cases begins with
  | intro serves sound fresh does =>
    have keeps := h.quiet sound rfl does
    obtain ⟨deeds, result, last, after, -, -, -, leads, conveys⟩ :=
      f.watched_run program writer start [] 0 false
    obtain ⟨smooth, -⟩ := h.conveys conveys leads keeps.sound (keeps.filling _ _ _ fresh)
    have plays := program.plays_talk f.store.writer.answer (writer, start)
    rw [sends _ _ plays smooth]
    rfl

/-- A source is constant if what it sends from an address always delivers the same. -/
theorem constant_of_delivers (h : Dependable f v)
    (stays : ∀ {w w' : W} {deed : Deed R Wr S I}, serving w → f.Does w deed w' → serving w')
    (delivered : String → Option ByteArray)
    (sends : ∀ {url : String} {w w' : W} {program : Transfer}, serving w →
      f.Does w (.transfer url program) w' → program.Delivers (delivered url)) :
    f.Constant v serving where
  stays := stays
  alike {url} _ _ _ _ _ _ begins begins' := by
    have delivers : ∀ {program : Transfer} {writer : Wr} {start : W},
        f.Begins v serving url program writer start →
          f.delivery program writer start = delivered url := by
      intro program writer start begins
      refine begins.delivery h ?_
      cases begins with
      | intro serves sound fresh does => exact sends serves does
    rw [delivers begins, delivers begins']

end Fetcher

namespace Rehearsal

/-- The tile is all there is, and remains so. -/
theorem oneTile_constant : (tileFetcher patient).Constant (patient.view World.tierPart)
    fun w => w.served = oneTile.served := by
  refine constant_of_delivers oneTile_dependable ?_
    (fun url => if url = "tile" then some smallTile else none) ?_
  · intro w w' deed hw does
    exact (tileFetcher_served patient does).trans hw
  · intro url w w' program hw does
    obtain rfl : (w.servedAt url).transfer = program := congrArg (·.1) does
    have hserved : oneTile.served = [("tile", ⟨none, none, some dripping⟩)] := rfl
    rw [World.servedAt, hw, hserved]
    by_cases hu : url = "tile"
    · rw [if_pos hu, hu]
      exact (Writing.writeAll_sends smallTile).delivers
    · have hnone : List.lookup url [("tile", (⟨none, none, some dripping⟩ : Served))] = none := by
        simp [hu]
      rw [if_neg hu, hnone]
      exact Transfer.delivers_error _

def halfView : Request := .ofUrl "tile" ⟨2, 2⟩

end Rehearsal

open Rehearsal in
theorem thumbnail_and_half_commute :
    ((tileFetcher patient).fetch halfView ((tileFetcher patient).fetch thumbnail oneTile).2).1.1 =
        Tile.judgement.result halfView smallTile .network ∧
      ((tileFetcher patient).fetch thumbnail
          ((tileFetcher patient).fetch halfView oneTile).2).1.1 =
        Tile.judgement.result thumbnail smallTile .network ∧
      (patient.view World.tierPart).entry ((tileFetcher patient).fetch halfView
          ((tileFetcher patient).fetch thumbnail oneTile).2).2 thumbnail.fileKey =
        (patient.view World.tierPart).entry ((tileFetcher patient).fetch thumbnail
          ((tileFetcher patient).fetch halfView oneTile).2).2 thumbnail.fileKey := by
  have hne : thumbnail.fileKey ≠ halfView.fileKey := by decide +kernel
  have apart : thumbnail.fileKey ∉ halfView.places.map (·.1) :=
    fun hm => hne (List.mem_singleton.mp hm)
  have apart' : halfView.fileKey ∉ thumbnail.places.map (·.1) :=
    fun hm => hne (List.mem_singleton.mp hm).symm
  obtain ⟨half, small, entries⟩ := fetches_commute oneTile_dependable oneTile_judges
    oneTile_constant oneTile_bare.1 rfl (fun key _ => (oneTile_bare.2 key).2) apart apart'
  obtain ⟨result, -⟩ := oneTile_fetched (r := halfView) rfl
  obtain ⟨result', -⟩ := oneTile_fetched (r := thumbnail) rfl
  exact ⟨(congrArg (·.1) half).trans result, (congrArg (·.1) small).trans result',
    (entries _ thumbnail.fileKey_isDiskKey).1⟩

end ImageCache
