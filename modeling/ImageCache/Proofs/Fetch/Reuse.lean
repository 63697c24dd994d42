import ImageCache.Proofs.Fetch.Serving

namespace ImageCache

open Fetcher

variable {W R Wr S I E : Type} {f : Fetcher W R Wr S I E} {v : StoreView W R Wr}
  {j : Judgement I E} {w w' : W} {first second : Request} {bytes : ByteArray}

/-- A tag in the list is where the bytes are found, if nothing before it is there. -/
theorem search_listed {tag : String} {before after : List String}
    (lists : second.reuseTags = before ++ tag :: after)
    (missing : v.entry w second.fileKey = none)
    (earlier : ∀ tag ∈ before, v.entry w (second.renditionKey tag) = none)
    (there : v.entry w (second.renditionKey tag) = some bytes) :
    v.search w second.places = some (bytes, .reuse tag) := by
  rw [Request.places, StoreView.search_missing missing, lists, List.map_append, List.map_cons,
    StoreView.search_passed ?_, StoreView.search_found there]
  intro place hp
  obtain ⟨tag, hm, rfl⟩ := List.mem_map.mp hp
  exact earlier tag hm

theorem Judgement.size_of_result {provenance : Provenance} {fetched : Fetched I}
    (h : j.result first bytes provenance = .ok (some fetched)) :
    ∃ origin, j.size bytes = .ok origin := by
  cases hs : j.size bytes with
  | ok origin => exact ⟨origin, rfl⟩
  | error e =>
    rw [result, verdict_noSize hs] at h
    cases h

/-- Let a fetch have downloaded an image, and let the entry be as that fetch left it. Another
request of the same identity that lists the size tag, while its own rendition and those earlier in
its list are missing, asks neither the source nor for a writer. It decodes the bytes that were
committed, under the plan for the size found in them and its own target, unless the codec fails at
the factor of this plan. -/
theorem download_reused (h : Dependable f v) (sound : v.sound w) {fetched : Fetched I}
    (result : (f.fetch first w).1.1 = .ok (some fetched)) (network : fetched.provenance = .network)
    (identity : Key.normalize second.identityUrl = Key.normalize first.identityUrl)
    (sound' : v.sound w')
    (kept : v.entry w' first.fileKey = v.entry (f.fetch first w).2 first.fileKey)
    {before after : List String} (lists : second.reuseTags = before ++ first.sizeTag :: after)
    (missing : v.entry w' second.fileKey = none)
    (earlier : ∀ tag ∈ before, v.entry w' (second.renditionKey tag) = none) :
    asked (f.trace second w') = [] ∧
      (∀ deed ∈ f.trace second w', deed.handlesWriter = false) ∧
      v.entry w' first.fileKey = some (Deed.accepted (f.trace first w)) ∧
      Shows f v second (Deed.accepted (f.trace first w)) (.reuse first.sizeTag)
        (f.fetch second w').1.1 ⟨(f.fetch second w').1.2, (f.fetch second w').2⟩ ∧
      ∀ j, Judges f v j → ∃ origin, j.size (Deed.accepted (f.trace first w)) = .ok origin ∧
        ((∃ image, j.image (Sampling.factor origin second.target)
              (Deed.accepted (f.trace first w)) = .ok image ∧
            (f.fetch second w').1.1 = .ok (some ⟨image, .reuse first.sizeTag,
              ⟨origin, second.target, Sampling.factor origin second.target⟩⟩)) ∨
          ∃ e, j.image (Sampling.factor origin second.target)
              (Deed.accepted (f.trace first w)) = .error e ∧
            (f.fetch second w').1.1 = .error (.decode e)) := by
  obtain ⟨entry, shows⟩ := fetch_network h sound result network
  rw [entry] at kept
  -- The key that the second request makes of the tag is the one that the first wrote under.
  have there : v.entry w' (second.renditionKey first.sizeTag) =
      some (Deed.accepted (f.trace first w)) := by
    rw [Request.renditionKey_congr identity]
    exact kept
  obtain ⟨asks, idle, shows'⟩ :=
    fetch_stored h sound' (search_listed lists missing earlier there)
  refine ⟨asks, idle, kept, shows', fun j judges => ?_⟩
  obtain ⟨hfirst, -⟩ := shows.verdict h judges
  obtain ⟨hsecond, -⟩ := shows'.verdict h judges
  obtain ⟨origin, hsize⟩ := Judgement.size_of_result (hfirst.symm.trans result)
  refine ⟨origin, hsize, ?_⟩
  rw [hsecond, Judgement.result]
  cases himage : j.image (Sampling.factor origin second.target)
    (Deed.accepted (f.trace first w)) with
  | ok image =>
    rw [Judgement.verdict_image hsize himage]
    exact .inl ⟨image, rfl, rfl⟩
  | error e =>
    rw [Judgement.verdict_noImage hsize himage]
    exact .inr ⟨e, rfl, rfl⟩

namespace Rehearsal

/-- A larger view of the same image, from elsewhere, for which the thumbnail will do. -/
def largerView : Request :=
  ((Request.ofUrl "elsewhere" ⟨2, 2⟩).withIdentityUrl " tile ").withReuse ["9x9", "1x1"]

end Rehearsal

open Rehearsal in
theorem thumbnail_reused :
    ((tileFetcher patient).fetch thumbnail oneTile).1.1 =
        .ok (some ⟨⟨1, 1, 4, 2, 33⟩, .network, ⟨⟨4, 4⟩, ⟨1, 1⟩, 4⟩⟩) ∧
      asked ((tileFetcher patient).trace largerView
        ((tileFetcher patient).fetch thumbnail oneTile).2) = [] ∧
      ((tileFetcher patient).fetch largerView
          ((tileFetcher patient).fetch thumbnail oneTile).2).1.1 =
        .ok (some ⟨⟨2, 2, 2, 2, 33⟩, .reuse "1x1", ⟨⟨4, 4⟩, ⟨2, 2⟩, 2⟩⟩) := by
  obtain ⟨result, -, closed⟩ := thumbnail_fetched
  have bare := oneTile_bare.2
  have free : ∀ tag, thumbnail.fileKey ≠ largerView.renditionKey tag →
      (patient.view World.tierPart).entry ((tileFetcher patient).fetch thumbnail oneTile).2
        (largerView.renditionKey tag) = none := fun tag hne =>
    (closed.entry _ (largerView.renditionKey_isDiskKey tag) (Ne.symm hne)).trans (bare _).1
  have identity : Key.normalize largerView.identityUrl = Key.normalize thumbnail.identityUrl := by
    decide
  have lists : largerView.reuseTags = ["9x9"] ++ thumbnail.sizeTag :: [] := rfl
  have earlier : ∀ tag ∈ ["9x9"], (patient.view World.tierPart).entry
      ((tileFetcher patient).fetch thumbnail oneTile).2 (largerView.renditionKey tag) = none := by
    intro tag hm
    obtain rfl := List.mem_singleton.mp hm
    exact free _ (by decide +kernel)
  obtain ⟨asks, -, entry, -, found⟩ := download_reused oneTile_dependable oneTile_bare.1 result rfl
    identity closed.sound rfl lists (free _ (by decide +kernel)) earlier
  obtain ⟨origin, hsize, hfound⟩ := found _ oneTile_judges
  rw [← Option.some.inj (closed.own.symm.trans entry)] at hsize hfound
  have size : Tile.judgement.size smallTile = .ok ⟨4, 4⟩ := by cbv
  obtain rfl : (⟨4, 4⟩ : Size) = origin := Except.ok.inj (size.symm.trans hsize)
  have image : Tile.judgement.image (Sampling.factor ⟨4, 4⟩ ⟨2, 2⟩) smallTile =
      .ok ⟨2, 2, 2, 2, 33⟩ := by cbv
  rcases hfound with ⟨tile, htile, hfound⟩ | ⟨e, hno, -⟩
  · obtain rfl : (⟨2, 2, 2, 2, 33⟩ : Tile) = tile := Except.ok.inj (image.symm.trans htile)
    exact ⟨result, asks, hfound⟩
  · cases image.symm.trans hno

end ImageCache
