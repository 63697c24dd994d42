import ImageCache.Proofs.Fetch.Dependable
import ImageCache.Proofs.Fetch.Procedure
import ImageCache.Proofs.Requests

namespace ImageCache

open Fetcher

variable {W R Wr S I E : Type}

/-- What tells in a trace which way a fetch took. -/
inductive Landmark where
  | hit
  | committed
  | brokeOff
deriving DecidableEq

namespace Deed

def landmark : Deed R Wr S I → Option Landmark
  | .event _ .diskHit => some .hit
  | .event _ (.reuseHit _) => some .hit
  | .event _ (.downloadFailed _) => some .brokeOff
  | .commit _ (.ok ()) => some .committed
  | _ => none

def asksSource : Deed R Wr S I → Bool
  | .transfer _ _ => true
  | .openStream _ _ => true
  | .stream _ _ _ _ => true
  | _ => false

end Deed

def landmarks (deeds : List (Deed R Wr S I)) : List Landmark := deeds.filterMap Deed.landmark

def asked (deeds : List (Deed R Wr S I)) : List (Deed R Wr S I) := deeds.filter Deed.asksSource

@[simp]
theorem landmarks_append (first second : List (Deed R Wr S I)) :
    landmarks (first ++ second) = landmarks first ++ landmarks second :=
  List.filterMap_append

@[simp]
theorem asked_append (first second : List (Deed R Wr S I)) :
    asked (first ++ second) = asked first ++ asked second :=
  List.filter_append first second

theorem landmarks_joined {first second : List (Deed R Wr S I)} {marks more : List Landmark}
    (h : landmarks first = marks) (h' : landmarks second = more) :
    landmarks (first ++ second) = marks ++ more := by
  rw [landmarks_append, h, h']

theorem asked_joined {first second asks more : List (Deed R Wr S I)} (h : asked first = asks)
    (h' : asked second = more) : asked (first ++ second) = asks ++ more := by
  rw [asked_append, h, h']

/-- Nothing that says which way a fetch took, and nothing asked of the source. -/
def Plain (deeds : List (Deed R Wr S I)) : Prop := landmarks deeds = [] ∧ asked deeds = []

theorem Plain.append {first second : List (Deed R Wr S I)} (h : Plain first) (h' : Plain second) :
    Plain (first ++ second) :=
  ⟨landmarks_joined h.1 h'.1, asked_joined h.2 h'.2⟩

theorem Plain.cons {deed : Deed R Wr S I} {deeds : List (Deed R Wr S I)} (h : Plain [deed])
    (h' : Plain deeds) : Plain (deed :: deeds) :=
  h.append h'

theorem plain_perusals {deeds : List (Deed R Wr S I)} (h : ∀ deed ∈ deeds, deed.isPerusal) :
    Plain deeds := by
  refine ⟨List.filterMap_eq_nil_iff.mpr fun deed hd => ?_,
    List.filter_eq_nil_iff.mpr fun deed hd hc => ?_⟩
  · cases deed with
    | peruse entry n reply after => rfl
    | rewind entry reply after => rfl
    | _ => cases h _ hd
  · cases deed with
    | peruse entry n reply after => cases hc
    | rewind entry reply after => cases hc
    | _ => cases h _ hd

theorem Decode.plain {f : Fetcher W R Wr S I E} {entry : R} {s left : Session W}
    {deeds : List (Deed R Wr S I)} {outcome : Except (FetchFault E) (I × DecodePlan)}
    (h : Decode f entry s deeds outcome left) : Plain deeds := by
  cases h with
  | noSize bounds perusals => exact (plain_perusals perusals).append ⟨rfl, rfl⟩
  | noRewind bounds rewind perusals => exact (plain_perusals perusals).append ⟨rfl, rfl⟩
  | noImage bounds rewind told image perusals =>
    obtain ⟨hd, hm⟩ := List.forall_mem_append.mp perusals
    refine (plain_perusals hd).append ?_
    exact Plain.cons ⟨rfl, rfl⟩ ((plain_perusals hm).append ⟨rfl, rfl⟩)
  | image bounds rewind told decode perusals =>
    obtain ⟨hd, hm⟩ := List.forall_mem_append.mp perusals
    refine (plain_perusals hd).append ?_
    exact Plain.cons ⟨rfl, rfl⟩ (plain_perusals hm)

theorem Conveys.plain {writer last : Wr} {talk : Talk} {deeds : List (Deed R Wr S I)}
    (h : Conveys writer talk deeds last) : Plain deeds := by
  induction h with
  | nil => exact ⟨rfl, rfl⟩
  | cons first _ ih =>
    refine Plain.append ?_ ih
    cases first with
    | write bytes reply => exact ⟨rfl, rfl⟩
    | flush reply => exact ⟨rfl, rfl⟩
    | horizon n => exact ⟨rfl, rfl⟩

/-- The first of the places for which the store has bytes. -/
def StoreView.search (v : StoreView W R Wr) (w : W) (places : List (String × Provenance)) :
    Option (ByteArray × Provenance) :=
  places.findSome? fun place => (v.entry w place.1).map (·, place.2)

section Search

variable {v : StoreView W R Wr} {w w' : W} {key : String} {provenance : Provenance}
  {places : List (String × Provenance)}

theorem StoreView.search_found {bytes : ByteArray} (h : v.entry w key = some bytes) :
    v.search w ((key, provenance) :: places) = some (bytes, provenance) := by
  rw [search, List.findSome?_cons, h]
  rfl

theorem StoreView.search_missing (h : v.entry w key = none) :
    v.search w ((key, provenance) :: places) = v.search w places := by
  rw [search, List.findSome?_cons, h]
  rfl

theorem StoreView.search_passed {before : List (String × Provenance)}
    (h : ∀ place ∈ before, v.entry w place.1 = none) :
    v.search w (before ++ places) = v.search w places := by
  induction before with
  | nil => rfl
  | cons place rest ih =>
    obtain ⟨hp, hr⟩ := List.forall_mem_cons.mp h
    rw [List.cons_append, search_missing hp, ih hr]

theorem StoreView.search_absent (h : ∀ place ∈ places, v.entry w place.1 = none) :
    v.search w places = none := by
  rw [← List.append_nil places, search_passed h]
  rfl

/-- Only the entries of its places count for a search. -/
theorem StoreView.search_congr (h : ∀ place ∈ places, v.entry w' place.1 = v.entry w place.1) :
    v.search w' places = v.search w places := by
  induction places with
  | nil => rfl
  | cons place rest ih =>
    obtain ⟨key, provenance⟩ := place
    obtain ⟨he, hr⟩ := List.forall_mem_cons.mp h
    cases hf : v.entry w key with
    | none => rw [search_missing hf, search_missing (he.trans hf), ih hr]
    | some bytes => rw [search_found hf, search_found (he.trans hf)]

theorem StoreView.Same.search (h : v.Same w w') (hp : ∀ place ∈ places, IsDiskKey place.1) :
    v.search w' places = v.search w places :=
  search_congr fun place hm => h.entry place.1 (hp place hm)

end Search

theorem Request.places_congr {first second : Request}
    (identity : Key.normalize second.identityUrl = Key.normalize first.identityUrl)
    (tag : second.sizeTag = first.sizeTag) (reuse : second.reuseTags = first.reuseTags) :
    second.places = first.places := by
  simp only [places, fileKey, renditionKey_congr identity, tag, reuse]

theorem Request.renditions_isDiskKey (r : Request) (tags : List String) :
    ∀ place ∈ tags.map fun tag => (r.renditionKey tag, Provenance.reuse tag),
      IsDiskKey place.1 := by
  intro place hp
  obtain ⟨tag, -, rfl⟩ := List.mem_map.mp hp
  exact r.renditionKey_isDiskKey tag

theorem Request.places_isDiskKey (r : Request) : ∀ place ∈ r.places, IsDiskKey place.1 :=
  List.forall_mem_cons.mpr
    ⟨r.fileKey_isDiskKey, r.renditions_isDiskKey r.reuseTags⟩

/-- What looking for bytes comes to, with what a search of the view gives and which landmarks are
passed. -/
inductive Sought (v : StoreView W R Wr) (w' : W) : Option (ByteArray × Provenance) →
    List Landmark → Except (FetchFault E) (Option (R × Provenance)) → Prop
  | absent : Sought v w' none [] (.ok none)
  | there {bytes : ByteArray} {provenance : Provenance} {entry : R}
      (ahead : v.ahead bytes (entry, w') bytes) :
      Sought v w' (some (bytes, provenance)) [.hit] (.ok (some (entry, provenance)))

section Looking

variable {f : Fetcher W R Wr S I E} {v : StoreView W R Wr} {r : Request} {w w' : W}

theorem Dependable.read_answers (h : Dependable f v) (hs : v.sound w) {key : String}
    (hk : IsDiskKey key) {reply : Except Fault (Option R)} (does : f.Does w (.read key reply) w') :
    (v.entry w key = none ∧ reply = .ok none) ∨
      ∃ bytes entry, v.entry w key = some bytes ∧ reply = .ok (some entry) ∧
        v.ahead bytes (entry, w') bytes := by
  cases he : v.entry w key with
  | none => exact .inl ⟨rfl, h.missing hs hk does he⟩
  | some bytes =>
    obtain ⟨entry, hr, ha⟩ := h.found hs hk does he
    exact .inr ⟨bytes, entry, rfl, hr, ha⟩

theorem Scan.sought (h : Dependable f v) (hs : v.sound w) {tags : List String}
    {deeds : List (Deed R Wr S I)} {outcome : Except (FetchFault E) (Option (R × Provenance))}
    (scan : Scan r tags deeds outcome) (leads : f.Leads w deeds w') :
    asked deeds = [] ∧
      Sought v w' (v.search w (tags.map fun tag => (r.renditionKey tag, .reuse tag)))
        (landmarks deeds) outcome := by
  induction scan generalizing w with
  | spent => exact ⟨rfl, .absent⟩
  | fault tag rest e =>
    -- A dependable store never answers with a fault.
    obtain ⟨w₁, hread, -⟩ := leads
    rcases h.read_answers hs (r.renditionKey_isDiskKey tag) hread with
      ⟨-, hr⟩ | ⟨bytes, entry, -, hr, -⟩
    · cases hr
    · cases hr
  | hit tag rest entry =>
    obtain ⟨w₁, hread, hrest⟩ := leads
    rcases h.read_answers hs (r.renditionKey_isDiskKey tag) hread with
      ⟨-, hr⟩ | ⟨bytes, entry, he, hr, ha⟩
    · cases hr
    · cases hr
      have sound := (h.quiet hs rfl hread).sound
      have keeps := h.quiet sound rfl (leads_single.mp hrest)
      refine ⟨rfl, ?_⟩
      rw [List.map_cons, StoreView.search_found he]
      exact .there (keeps.ahead _ _ _ ha)
  | @miss tag rest deeds outcome scan ih =>
    obtain ⟨w₁, hread, w₂, htold, hrest⟩ := leads
    rcases h.read_answers hs (r.renditionKey_isDiskKey tag) hread with
      ⟨he, -⟩ | ⟨bytes, entry, -, hr, -⟩
    · have first := h.quiet hs rfl hread
      have keeps := first.trans (h.quiet first.sound rfl htold)
      obtain ⟨ha, sought⟩ := ih keeps.sound hrest
      -- To look and to tell of it leaves the view alone, so the rest of the search is as before.
      rw [keeps.search (r.renditions_isDiskKey rest)] at sought
      rw [List.map_cons, StoreView.search_missing he]
      exact ⟨ha, sought⟩
    · cases hr

theorem Look.sought (h : Dependable f v) (hs : v.sound w) {deeds : List (Deed R Wr S I)}
    {outcome : Except (FetchFault E) (Option (R × Provenance))} (look : Look r deeds outcome)
    (leads : f.Leads w deeds w') :
    asked deeds = [] ∧ Sought v w' (v.search w r.places) (landmarks deeds) outcome := by
  have hk := r.fileKey_isDiskKey
  cases look with
  | fault e =>
    obtain ⟨w₁, hread, -⟩ := leads
    rcases h.read_answers hs hk hread with ⟨-, hr⟩ | ⟨bytes, entry, -, hr, -⟩
    · cases hr
    · cases hr
  | hit entry =>
    obtain ⟨w₁, hread, hrest⟩ := leads
    rcases h.read_answers hs hk hread with ⟨-, hr⟩ | ⟨bytes, entry, he, hr, ha⟩
    · cases hr
    · cases hr
      have sound := (h.quiet hs rfl hread).sound
      have keeps := h.quiet sound rfl (leads_single.mp hrest)
      refine ⟨rfl, ?_⟩
      rw [Request.places, StoreView.search_found he]
      exact .there (keeps.ahead _ _ _ ha)
  | scan scan =>
    obtain ⟨w₁, hread, hrest⟩ := leads
    rcases h.read_answers hs hk hread with ⟨he, -⟩ | ⟨bytes, entry, -, hr, -⟩
    · have keeps := h.quiet hs rfl hread
      obtain ⟨ha, sought⟩ := scan.sought h keeps.sound hrest
      rw [keeps.search (r.renditions_isDiskKey r.reuseTags)] at sought
      rw [Request.places, StoreView.search_missing he]
      exact ⟨ha, sought⟩
    · cases hr

end Looking

end ImageCache
