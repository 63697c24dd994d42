import ImageCache.Proofs.Fetch.Procedure
import ImageCache.Proofs.Fetch.StreamCourse
import ImageCache.Proofs.MemoryCache.Recency
import ImageCache.Rehearsal.MapFetcher

namespace ImageCache

open Fetcher

variable {W R Wr S I E : Type}

namespace Deed

def asksMemory : Deed R Wr S I → Bool
  | .lookUp _ _ => true
  | .keep _ _ => true
  | .forgetAll => true
  | _ => false

theorem asksMemory_of_isStreaming {deed : Deed R Wr S I} (h : deed.isStreaming) :
    deed.asksMemory = false := by
  cases deed with
  | openStream url reply => rfl
  | stream stream n reply after => rfl
  | event r e => rfl
  | notice n => rfl
  | _ => cases h

/-- To ask the memory is a call. -/
theorem asksMemory_of_calls {deeds : List (Deed R Wr S I)}
    (h : ∀ deed ∈ calls deeds, deed.asksMemory = false) :
    ∀ deed ∈ deeds, deed.asksMemory = false := by
  intro deed hd
  by_cases hc : deed.isCall
  · exact h deed (List.mem_filter.mpr ⟨hd, hc⟩)
  · cases deed <;> first | rfl | exact absurd rfl hc

end Deed

theorem Probe.memoryless {places : List (String × Provenance)} {asked : List (Deed R Wr S I)}
    {search : Search R} (h : Probe places asked search) :
    ∀ deed ∈ asked, deed.asksMemory = false := by
  induction h with
  | spent => simp
  | fault => simp [Deed.asksMemory]
  | hit => simp [Deed.asksMemory]
  | miss key provenance h ih => exact List.forall_mem_cons.mpr ⟨rfl, ih⟩

theorem Procurement.memoryless {r : Request} {asked : List (Deed R Wr S I)} {search : Search R}
    (h : Procurement r asked search) : ∀ deed ∈ asked, deed.asksMemory = false := by
  cases h with
  | committed plays back =>
    simpa [Deed.asksMemory] using back.memoryless
  | _ => simp [Deed.asksMemory]

theorem Procedure.memoryless {r : Request} {asked : List (Deed R Wr S I)} {search : Search R}
    (h : Procedure r asked search) : ∀ deed ∈ asked, deed.asksMemory = false := by
  cases h with
  | stored probe => exact probe.memoryless
  | downloaded probe procured =>
    exact List.forall_mem_append.mpr ⟨probe.memoryless, procured.memoryless⟩

/-- A fetch asks nothing of the memory tier. -/
theorem Course.memoryless {f : Fetcher W R Wr S I E} {r : Request} {w : W}
    {deeds : List (Deed R Wr S I)} {outcome : FetchResult I E} {left : Session W}
    (h : Course f r w deeds outcome left) : ∀ deed ∈ deeds, deed.asksMemory = false := by
  have located : ∀ {deeds : List (Deed R Wr S I)}
      {outcome : Except (FetchFault E) (Option (R × Provenance))},
      Locate r deeds outcome → ∀ deed ∈ deeds, deed.asksMemory = false := by
    intro deeds outcome locate
    obtain ⟨search, -, procedure⟩ := locate.procedure
    exact Deed.asksMemory_of_calls procedure.memoryless
  cases h with
  | fault locate => exact List.forall_mem_cons.mpr ⟨rfl, located locate⟩
  | missing locate =>
    refine List.forall_mem_cons.mpr ⟨rfl, List.forall_mem_append.mpr ⟨located locate, ?_⟩⟩
    simp [Deed.asksMemory]
  | found locate leads decode =>
    refine List.forall_mem_cons.mpr ⟨rfl, List.forall_mem_append.mpr ⟨located locate, ?_⟩⟩
    exact Deed.asksMemory_of_calls (by simp [decode.calls_nil])

/-- A fetch keeps the key that the request has in the memory tier. -/
theorem Course.identityKey {f : Fetcher W R Wr S I E} {r : Request} {w : W}
    {deeds : List (Deed R Wr S I)} {outcome : FetchResult I E} {left : Session W}
    (h : Course f r w deeds outcome left) : left.request.identityKey = r.identityKey := by
  cases h with
  | fault locate => rfl
  | missing locate => rfl
  | found locate leads decode => cases decode <;> rfl

/-- The tier of decoded images is this part of the world, a cache of images at this cost, and no
other collaborator reaches it. -/
structure InMemory (f : Fetcher W R Wr S I E) (tier : Part W (MemoryCache I)) (cost : I → UInt64) :
    Prop where
  get : ∀ key, f.memory.get key = tier.run (·.get key)
  set : ∀ key image, f.memory.set key image = tier.modify (·.set key image (cost image))
  clear : f.memory.clear = tier.modify (·.clear)
  lawful : tier.Lawful
  apart : ∀ (deed : Deed R Wr S I) w after, deed.asksMemory = false → f.Does w deed after →
    tier.get after = tier.get w

namespace Fetcher

inductive Visit (I : Type) where
  | fetch (r : Request)
  | fetchStreaming (r : Request)
  | lookUpOrFetch (r : Request)
  | remember (key : Option String) (image : Option I)
  | lookUp (r : Request)
  | forgetAll

def visit (f : Fetcher W R Wr S I E) (w : W) : Visit I → W
  | .fetch r => (f.fetch r w).2
  | .fetchStreaming r => (f.fetchStreaming r w).2
  | .lookUpOrFetch r => (f.lookUpOrFetch r w).2
  | .remember key image => (f.remember key image w).2
  | .lookUp r => (f.lookUp r w).2
  | .forgetAll => (f.forgetAll w).2

def visitAll (f : Fetcher W R Wr S I E) (w : W) (visits : List (Visit I)) : W :=
  visits.foldl f.visit w

/-- The visits of a run, with the worlds they were made in. -/
def visited (f : Fetcher W R Wr S I E) : W → List (Visit I) → List (W × Visit I)
  | _, [] => []
  | w, visit :: rest => (w, visit) :: f.visited (f.visit w visit) rest

/-- On this visit the image was put in under this key, or fetched for a request that has the key
because no image was held for it. -/
def Gives (f : Fetcher W R Wr S I E) (key : String) (image : I) : W × Visit I → Prop
  | (_, .remember (some given) (some value)) => given = key ∧ value = image
  | (w, .lookUpOrFetch r) =>
    r.identityKey = key ∧ (f.lookUp r w).1 = none ∧
      ∃ fetched, (f.fetch r w).1.1 = .ok (some fetched) ∧ fetched.image = image
  | _ => False

def keepFetched (f : Fetcher W R Wr S I E) (r : Request) (result : FetchResult I E) (w : W) : W :=
  match result with
  | .ok (some fetched) => (f.remember (some r.identityKey) (some fetched.image) w).2
  | _ => w

end Fetcher

/-- How a fetcher and its memory tier stand to each other in the world `w`, to which these visits
led. -/
structure Coherent (f : Fetcher W R Wr S I E) (tier : Part W (MemoryCache I))
    (history : List (W × Visit I)) (w : W) : Prop where
  fetch : ∀ r, (∀ deed ∈ f.trace r w, deed.asksMemory = false) ∧
    tier.get (f.fetch r w).2 = tier.get w
  streaming : ∀ r, (∀ deed ∈ f.streamTrace r w, deed.asksMemory = false) ∧
    tier.get (f.fetchStreaming r w).2 = tier.get w
  /-- An image that is held is handed out, and nothing else is asked or done. -/
  hit : ∀ r slot, (tier.get w).find? r.identityKey = some slot →
    f.lookUpOrFetch r w =
        ((.ok (some slot.value), r), tier.set ((tier.get w).get r.identityKey).2 w) ∧
      (f.recorded.lookUpOrFetch r (w, [])).2.2 = [.lookUp r.identityKey (some slot.value)]
  miss : ∀ r, (tier.get w).find? r.identityKey = none →
    f.lookUpOrFetch r w =
      (((f.fetch r w).1.1.map (·.map (·.image)), (f.fetch r w).1.2),
        f.keepFetched r (f.fetch r w).1.1 (f.fetch r w).2)
  held : ∀ slot ∈ (tier.get w).slots,
    slot.key ≠ "" ∧ ∃ made ∈ history, f.Gives slot.key slot.value made
  /-- Switched off, the tier might as well not be there. -/
  off : f.settings.memorySupported = false →
    (tier.get w).slots = [] ∧ ∀ r, f.lookUpOrFetch r w =
      (((f.fetch r w).1.1.map (·.map (·.image)), (f.fetch r w).1.2), (f.fetch r w).2)

namespace InMemory

variable {f : Fetcher W R Wr S I E} {tier : Part W (MemoryCache I)} {cost : I → UInt64} {w : W}

theorem leads (h : InMemory f tier cost) {deeds : List (Deed R Wr S I)} {after : W}
    (hd : ∀ deed ∈ deeds, deed.asksMemory = false) (leads : f.Leads w deeds after) :
    tier.get after = tier.get w :=
  leads_keeps (P := fun u => tier.get u = tier.get w)
    (fun deed hm u u' hu does => (h.apart deed u u' (hd deed hm) does).trans hu) rfl leads

theorem fetch (h : InMemory f tier cost) (r : Request) (w : W) :
    (∀ deed ∈ f.trace r w, deed.asksMemory = false) ∧ tier.get (f.fetch r w).2 = tier.get w := by
  obtain ⟨outcome, left, hf, -, leads, course⟩ := f.fetch_course r w
  rw [hf]
  exact ⟨course.memoryless, h.leads course.memoryless leads⟩

theorem streaming (h : InMemory f tier cost) (r : Request) (w : W) :
    (∀ deed ∈ f.streamTrace r w, deed.asksMemory = false) ∧
      tier.get (f.fetchStreaming r w).2 = tier.get w := by
  obtain ⟨outcome, left, hf, -, leads, -, streaming⟩ := f.streaming_goes r w
  have hd : ∀ deed ∈ f.streamTrace r w, deed.asksMemory = false :=
    fun deed hd => Deed.asksMemory_of_isStreaming (streaming deed hd)
  rw [hf]
  exact ⟨hd, h.leads hd leads⟩

theorem lookUp_hit (h : InMemory f tier cost) {r : Request} {slot : Slot I}
    (hit : (tier.get w).find? r.identityKey = some slot) :
    f.lookUp r w = (some slot.value, tier.set ((tier.get w).get r.identityKey).2 w) := by
  simp only [lookUp, h.get, Part.run]
  rw [show ((tier.get w).get r.identityKey).1 = some slot.value by simp [MemoryCache.get, hit]]

theorem lookUp_miss (h : InMemory f tier cost) {r : Request}
    (miss : (tier.get w).find? r.identityKey = none) : f.lookUp r w = (none, w) := by
  have hget : (tier.get w).get r.identityKey = (none, tier.get w) := by
    simp [MemoryCache.get, miss]
  simp only [lookUp, h.get, Part.run, hget, h.lawful.set_get]

/-- An image that is held is handed out, and nothing else is asked or done. -/
theorem lookUpOrFetch_hit (h : InMemory f tier cost) {r : Request} {slot : Slot I}
    (hit : (tier.get w).find? r.identityKey = some slot) :
    f.lookUpOrFetch r w =
        ((.ok (some slot.value), r), tier.set ((tier.get w).get r.identityKey).2 w) ∧
      (f.recorded.lookUpOrFetch r (w, [])).2.2 = [.lookUp r.identityKey (some slot.value)] := by
  have hl := h.lookUp_hit hit
  have hm : f.memory.get r.identityKey w = _ := hl
  have hr : f.recorded.lookUp r (w, []) = (some slot.value,
      (tier.set ((tier.get w).get r.identityKey).2 w,
        [.lookUp r.identityKey (some slot.value)])) := by
    simp [lookUp, recorded, MemoryTier.recorded, noted, hm]
  constructor
  · simp only [lookUpOrFetch, bind, StateT.bind, hl]
    rfl
  · simp only [lookUpOrFetch, bind, StateT.bind, hr]
    rfl

/-- Where no image is held it is fetched, and kept if there is one. -/
theorem lookUpOrFetch_miss (h : InMemory f tier cost) {r : Request}
    (miss : (tier.get w).find? r.identityKey = none) :
    f.lookUpOrFetch r w =
      (((f.fetch r w).1.1.map (·.map (·.image)), (f.fetch r w).1.2),
        f.keepFetched r (f.fetch r w).1.1 (f.fetch r w).2) := by
  have hl := h.lookUp_miss miss
  obtain ⟨outcome, left, hf, -, -, course⟩ := f.fetch_course r w
  have hkey := course.identityKey
  simp only [lookUpOrFetch, bind, StateT.bind, hl, hf]
  match outcome with
  | .error e => rfl
  | .ok none => rfl
  | .ok (some fetched) =>
    simp only [keepFetched, ← hkey]
    rfl

theorem mem_remember (h : InMemory f tier cost) {key : Option String} {image : Option I}
    {slot : Slot I} (hs : slot ∈ (tier.get (f.remember key image w).2).slots) :
    slot ∈ (tier.get w).slots ∨ (f.settings.memorySupported = true ∧ slot.key ≠ "" ∧
      key = some slot.key ∧ image = some slot.value) := by
  match key, image with
  | none, _ => exact .inl hs
  | some _, none => exact .inl hs
  | some key, some image =>
    unfold remember at hs
    dsimp only at hs
    split at hs
    · next hkept =>
      have hset : (f.memory.set key image w).2 =
          tier.set ((tier.get w).set key image (cost image)) w := by
        rw [h.set]
        rfl
      change slot ∈ (tier.get (f.memory.set key image w).2).slots at hs
      rw [hset, h.lawful.get_set] at hs
      rcases MemoryCache.mem_set hs with hs | rfl
      · exact .inl hs
      · exact .inr ⟨hkept.2, hkept.1, rfl, rfl⟩
    · exact .inl hs

/-- What is held after a visit was held before, or the visit gave it. -/
theorem mem_visit (h : InMemory f tier cost) {visit : Visit I} {slot : Slot I}
    (hs : slot ∈ (tier.get (f.visit w visit)).slots) :
    slot ∈ (tier.get w).slots ∨ (f.settings.memorySupported = true ∧ slot.key ≠ "" ∧
      f.Gives slot.key slot.value (w, visit)) := by
  cases visit with
  | fetch r => exact .inl ((h.fetch r w).2 ▸ hs)
  | fetchStreaming r => exact .inl ((h.streaming r w).2 ▸ hs)
  | lookUpOrFetch r =>
    cases hfind : (tier.get w).find? r.identityKey with
    | some held =>
      rw [visit, (h.lookUpOrFetch_hit hfind).1, h.lawful.get_set] at hs
      exact .inl (MemoryCache.mem_get hs)
    | none =>
      rw [visit, h.lookUpOrFetch_miss hfind] at hs
      simp only [keepFetched] at hs
      split at hs
      · next fetched hfetched =>
        rcases h.mem_remember hs with hs | ⟨hon, hne, hkey, himage⟩
        · exact .inl ((h.fetch r w).2 ▸ hs)
        · refine .inr ⟨hon, hne, Option.some.inj hkey, ?_, fetched, hfetched,
            Option.some.inj himage⟩
          rw [h.lookUp_miss hfind]
      · exact .inl ((h.fetch r w).2 ▸ hs)
  | remember key image =>
    rcases h.mem_remember hs with hs | ⟨hon, hne, rfl, rfl⟩
    · exact .inl hs
    · exact .inr ⟨hon, hne, rfl, rfl⟩
  | lookUp r =>
    change slot ∈ (tier.get (f.memory.get r.identityKey w).2).slots at hs
    rw [h.get, Part.run, h.lawful.get_set] at hs
    exact .inl (MemoryCache.mem_get hs)
  | forgetAll =>
    change slot ∈ (tier.get (f.memory.clear w).2).slots at hs
    rw [h.clear, Part.modify, h.lawful.get_set] at hs
    exact absurd hs List.not_mem_nil

theorem mem_visitAll (h : InMemory f tier cost) {visits : List (Visit I)} {slot : Slot I}
    (hs : slot ∈ (tier.get (f.visitAll w visits)).slots) :
    slot ∈ (tier.get w).slots ∨ (f.settings.memorySupported = true ∧ slot.key ≠ "" ∧
      ∃ made ∈ f.visited w visits, f.Gives slot.key slot.value made) := by
  induction visits generalizing w with
  | nil => exact .inl hs
  | cons visit rest ih =>
    rcases ih hs with hs | ⟨hon, hne, made, hm, hg⟩
    · rcases h.mem_visit hs with hs | ⟨hon, hne, hg⟩
      · exact .inl hs
      · exact .inr ⟨hon, hne, _, List.mem_cons_self, hg⟩
    · exact .inr ⟨hon, hne, made, List.mem_cons_of_mem _ hm, hg⟩

end InMemory

/-- Nothing is kept where memory is switched off. -/
theorem Fetcher.keepFetched_off {f : Fetcher W R Wr S I E} (h : f.settings.memorySupported = false)
    (r : Request) (result : FetchResult I E) (w : W) : f.keepFetched r result w = w := by
  match result with
  | .error e => rfl
  | .ok none => rfl
  | .ok (some fetched) =>
    simp only [keepFetched, remember, h, Bool.false_eq_true, and_false, if_false]
    rfl

/-- After any run of calls from an empty memory tier, the fetcher and the tier go together: fetches
leave the tier alone, an image that is held spares a fetch, and what is held was fetched or put in
for its key. -/
theorem memory_coherent {f : Fetcher W R Wr S I E} {tier : Part W (MemoryCache I)}
    {cost : I → UInt64} (h : InMemory f tier cost) {limits : MemoryLimits} {w : W}
    (empty : tier.get w = .empty limits) (visits : List (Visit I)) :
    Coherent f tier (f.visited w visits) (f.visitAll w visits) := by
  have hheld : ∀ slot ∈ (tier.get (f.visitAll w visits)).slots,
      f.settings.memorySupported = true ∧ slot.key ≠ "" ∧
        ∃ made ∈ f.visited w visits, f.Gives slot.key slot.value made := by
    intro slot hs
    rcases h.mem_visitAll hs with hs | hs
    · rw [empty] at hs
      exact absurd hs List.not_mem_nil
    · exact hs
  refine ⟨fun r => h.fetch r _, fun r => h.streaming r _, fun r slot => h.lookUpOrFetch_hit,
    fun r => h.lookUpOrFetch_miss, fun slot hs => (hheld slot hs).2, ?_⟩
  intro hoff
  have hnone : (tier.get (f.visitAll w visits)).slots = [] := by
    apply List.eq_nil_iff_forall_not_mem.mpr
    intro slot hs
    exact absurd (hheld slot hs).1 (by simp [hoff])
  refine ⟨hnone, fun r => ?_⟩
  have hmiss : (tier.get (f.visitAll w visits)).find? r.identityKey = none := by
    simp [MemoryCache.find?, hnone]
  rw [h.lookUpOrFetch_miss hmiss, keepFetched_off hoff]

namespace Rehearsal

theorem mapFetcher_inMemory : InMemory mapFetcher World.memoryPart Tile.cost where
  get _ := rfl
  set _ _ := rfl
  clear := rfl
  lawful := ⟨fun _ _ => rfl, fun _ => rfl, fun _ _ _ => rfl⟩
  apart := by
    intro deed w after hd does
    cases deed with
    | lookUp key reply => cases hd
    | keep key image => cases hd
    | forgetAll => cases hd
    | peruse entry n reply next => exact congrArg (World.memory ·.2.2) does.symm
    | rewind entry reply next => exact congrArg (World.memory ·.2.2) does.symm
    | offer writer bytes reply next => exact congrArg (World.memory ·.2.2) does.symm
    | flush writer reply next => exact congrArg (World.memory ·.2.2) does.symm
    | stream stream n reply next => exact congrArg (World.memory ·.2.2) does.symm
    | _ => exact congrArg (World.memory ·.2) does.symm

def roomy : World MapStore Tile := .start MapStore.empty ⟨100, 100⟩

def speck : Tile := ⟨1, 1, 1, 0, 0⟩

end Rehearsal

open Rehearsal in
theorem remembered_tile_spares_fetch :
    InMemory mapFetcher World.memoryPart Tile.cost ∧
      World.memoryPart.get roomy = .empty ⟨100, 100⟩ ∧
      (mapFetcher.lookUpOrFetch thumbnail
        (mapFetcher.visitAll roomy [.remember (some "tile") (some speck)])).1 =
          (.ok (some speck), thumbnail) := by
  have h := mapFetcher_inMemory
  have hempty : World.memoryPart.get roomy = .empty ⟨100, 100⟩ := rfl
  have coherent := memory_coherent h hempty [.remember (some "tile") (some speck)]
  have hkey : thumbnail.identityKey = "tile" := by decide +kernel
  have hheld : (World.memoryPart.get (mapFetcher.visitAll roomy
      [.remember (some "tile") (some speck)])).find? thumbnail.identityKey =
        some ⟨"tile", speck, 1⟩ := by
    rw [hkey]
    rfl
  refine ⟨h, hempty, ?_⟩
  rw [(coherent.hit thumbnail _ hheld).1]

end ImageCache
