import ImageCache.Proofs.Fetch.Serving

namespace ImageCache

open Fetcher

variable {W R Wr S I E : Type}

/-- Two fetches come to the same image under the same plan, each with its own provenance, or the
codec fails in both alike. -/
inductive Repeats (p q : Provenance) : FetchResult I E → FetchResult I E → Prop
  | image (image : I) (plan : DecodePlan) :
      Repeats p q (.ok (some ⟨image, p, plan⟩)) (.ok (some ⟨image, q, plan⟩))
  | decode (e : E) : Repeats p q (.error (.decode e)) (.error (.decode e))

theorem Judgement.repeats (j : Judgement I E) {first second : Request} (bytes : ByteArray)
    (target : second.target = first.target) (p q : Provenance) :
    Repeats p q (j.result first bytes p) (j.result second bytes q) := by
  rw [result, result, target]
  cases j.verdict first.target bytes with
  | ok found => exact .image found.1 found.2
  | error e => exact .decode e

variable {f : Fetcher W R Wr S I E} {v : StoreView W R Wr} {j : Judgement I E} {w w' : W}
  {first second : Request} {bytes : ByteArray} {provenance : Provenance}

/-- A second fetch that finds the bytes of the first asks nothing of the source and repeats what
came of them. -/
theorem fetch_repeats (h : Dependable f v) (judges : Judges f v j) (hs : v.sound w')
    (target : second.target = first.target)
    (there : v.search w' second.places = some (bytes, provenance)) (p : Provenance) :
    asked (f.trace second w') = [] ∧
      Repeats p provenance (j.result first bytes p) (f.fetch second w').1.1 := by
  obtain ⟨asks, -, shows⟩ := fetch_stored h hs there
  obtain ⟨hr, -⟩ := shows.verdict h judges
  rw [hr]
  exact ⟨asks, j.repeats bytes target p provenance⟩

/-- Where nothing is found and the key is free, the source is asked for one transfer. -/
theorem fetch_asks (h : Dependable f v) (hs : v.sound w)
    (absent : v.search w second.places = none) (free : ¬ v.held w second.fileKey) :
    ∃ program, asked (f.trace second w) = [.transfer second.remoteUrl program] := by
  obtain ⟨result, left, -, -, fares⟩ := fetch_fares h hs second
  generalize f.trace second w = deeds at fares ⊢
  cases fares with
  | stored there =>
    rw [absent] at there
    cases there
  | downloaded _ _ _ asks => exact ⟨_, asks⟩
  | brokeOff _ _ _ asks => exact ⟨_, asks⟩
  | conflict _ held => exact absurd held free

/-- Let no key be held, and let two requests agree in identity, size tag, target and reuse list. A
fetch for the first one finds bytes in the store, commits a download or breaks off. Accordingly a
fetch for the second one, made after it, comes to the same with the same provenance; comes to the
same from the store without asking the source; or finds the store as it was before and asks the
source once more. -/
theorem fetch_again (h : Dependable f v) (judges : Judges f v j) (sound : v.sound w)
    (free : ∀ key, IsDiskKey key → ¬ v.held w key)
    (identity : Key.normalize second.identityUrl = Key.normalize first.identityUrl)
    (tag : second.sizeTag = first.sizeTag) (target : second.target = first.target)
    (reuse : second.reuseTags = first.reuseTags) :
    (landmarks (f.trace first w) = [.hit] ∨ landmarks (f.trace first w) = [.committed] ∨
        landmarks (f.trace first w) = [.brokeOff]) ∧
      (landmarks (f.trace first w) = [.hit] → ∃ provenance,
        (provenance = .diskExact ∨ ∃ tag ∈ first.reuseTags, provenance = .reuse tag) ∧
          Repeats provenance provenance (f.fetch first w).1.1
            (f.fetch second (f.fetch first w).2).1.1) ∧
      (landmarks (f.trace first w) = [.committed] →
        asked (f.trace second (f.fetch first w).2) = [] ∧
          Repeats .network .diskExact (f.fetch first w).1.1
            (f.fetch second (f.fetch first w).2).1.1) ∧
      (landmarks (f.trace first w) = [.brokeOff] →
        (f.fetch first w).1.1 = .ok none ∧ v.Same w (f.fetch first w).2 ∧
          ∃ program, asked (f.trace second (f.fetch first w).2) =
            [.transfer second.remoteUrl program]) := by
  obtain ⟨result, left, hf, -, fares⟩ := fetch_fares h sound first
  rw [hf]
  generalize f.trace first w = deeds at fares ⊢
  have places := Request.places_congr identity tag reuse
  cases fares with
  | @stored _ _ bytes provenance there marks asks idle same shows =>
    obtain ⟨rfl, -⟩ := shows.verdict h judges
    have there' : v.search left.world second.places = some (bytes, provenance) := by
      rw [places, same.search first.places_isDiskKey, there]
    obtain ⟨-, repeats⟩ := fetch_repeats h judges same.sound target there' provenance
    rw [marks]
    refine ⟨.inl rfl, fun _ => ⟨provenance, v.search_provenance there, repeats⟩, fun hc => ?_,
      fun hb => ?_⟩
    · cases hc
    · cases hb
  | @downloaded _ _ program talk absent _ marks asks plays smooth took closed shows =>
    obtain ⟨rfl, -⟩ := shows.verdict h judges
    have there : v.search left.world second.places = some (talk.accepted, .diskExact) := by
      rw [places, Request.places, StoreView.search_found closed.own]
    rw [marks]
    refine ⟨.inr (.inl rfl), fun hh => ?_,
      fun _ => fetch_repeats h judges closed.sound target there .network, fun hb => ?_⟩
    · cases hh
    · cases hb
  | brokeOff absent _ marks asks plays smooth same =>
    rw [marks]
    refine ⟨.inr (.inr rfl), fun hh => ?_, fun hc => ?_,
      fun _ => ⟨rfl, same, fetch_asks h same.sound ?_ ?_⟩⟩
    · cases hh
    · cases hc
    · rw [places, same.search first.places_isDiskKey, absent]
    · have hk := second.fileKey_isDiskKey
      exact mt (same.held _ hk).mp (free _ hk)
  | conflict absent held => exact absurd held (free _ first.fileKey_isDiskKey)

open Rehearsal in
theorem thumbnail_again :
    asked ((tileFetcher patient).trace
        ((Request.ofUrl "elsewhere" ⟨1, 1⟩).withIdentityUrl " tile ")
        ((tileFetcher patient).fetch thumbnail oneTile).2) = [] ∧
      ((tileFetcher patient).fetch
          ((Request.ofUrl "elsewhere" ⟨1, 1⟩).withIdentityUrl " tile ")
          ((tileFetcher patient).fetch thumbnail oneTile).2).1.1 =
        .ok (some ⟨⟨1, 1, 4, 2, 33⟩, .diskExact, ⟨⟨4, 4⟩, ⟨1, 1⟩, 4⟩⟩) := by
  obtain ⟨result, marks, -⟩ := thumbnail_fetched
  have identity : Key.normalize
      ((Request.ofUrl "elsewhere" ⟨1, 1⟩).withIdentityUrl " tile ").identityUrl =
      Key.normalize thumbnail.identityUrl := by decide
  obtain ⟨-, -, committed, -⟩ := fetch_again oneTile_dependable oneTile_judges oneTile_bare.1
    (fun key _ => (oneTile_bare.2 key).2) identity rfl rfl rfl
  obtain ⟨asks, repeats⟩ := committed marks
  refine ⟨asks, ?_⟩
  rw [result] at repeats
  generalize ((tileFetcher patient).fetch
    ((Request.ofUrl "elsewhere" ⟨1, 1⟩).withIdentityUrl " tile ") _).1.1 = again at repeats ⊢
  cases repeats with
  | image image plan => rfl

end ImageCache
