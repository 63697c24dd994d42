import ImageCache.Disk.Operations
import ImageCache.Proofs.Disk.Nodes
import Mathlib.Data.List.Induction

namespace ImageCache.Disk

/-- Directories have been made on the way to a path, and nothing else was done. -/
structure Made (p : Path) (d d' : Disk) : Prop where
  files : d'.files = d.files
  now : d'.now = d.now
  kept : ∀ q, d.node? q ≠ none → d'.node? q = d.node? q
  new : ∀ q, d.node? q = none → d'.node? q ≠ none →
    d'.node? q = some .dir ∧ q <+: p ∧ d'.Accessible q

namespace Made

variable {p q : Path} {d d' d'' : Disk}

theorem refl (p : Path) (d : Disk) : Made p d d :=
  ⟨rfl, rfl, fun _ _ => rfl, fun _ hn hs => absurd hn hs⟩

theorem accessible (h : Made p d d') (ha : d.Accessible q) : d'.Accessible q := by
  intro x hx hne
  have hdir := ha x hx hne
  rw [h.kept x (by simp [hdir]), hdir]

theorem trans (h : Made p d d') (h' : Made p d' d'') : Made p d d'' where
  files := h'.files.trans h.files
  now := h'.now.trans h.now
  kept q hq := by
    have hk := h.kept q hq
    rw [h'.kept q (by rwa [hk]), hk]
  new q hq hq'' := by
    by_cases hn : d'.node? q = none
    · exact h'.new q hn hq''
    · obtain ⟨hdir, hp, hacc⟩ := h.new q hq hn
      exact ⟨by rw [h'.kept q hn, hdir], hp, h'.accessible hacc⟩

theorem mono {more : Path} (h : Made p d d') (hp : p <+: more) : Made more d d' :=
  ⟨h.files, h.now, h.kept, fun q hq hq' =>
    let ⟨hdir, hqp, hacc⟩ := h.new q hq hq'
    ⟨hdir, hqp.trans hp, hacc⟩⟩

/-- What is no directory now was none before. -/
theorem dir (h : Made p d d') (hq : d.node? q = some .dir) : d'.node? q = some .dir := by
  rw [h.kept q (by simp [hq]), hq]

theorem file (h : Made p d d') {id : FileId} (hq : d'.node? q = some (.file id)) :
    d.node? q = some (.file id) := by
  by_cases hn : d.node? q = none
  · obtain ⟨hdir, -⟩ := h.new q hn (by simp [hq])
    rw [hdir] at hq
    cases hq
  · rw [← h.kept q hn, hq]

theorem rooted {root : Path} (h : Made p d d') (hd : d.Rooted root) : d'.Rooted root := by
  intro q hroot hq
  by_cases hn : d.node? q = none
  · exact (h.new q hn hq).2.2
  · exact h.accessible (hd q hroot hn)

end Made

variable {d d' : Disk} {p : Path}

theorem makeDir_made (p : Path) (d : Disk) : Made p d (makeDir p d).2 := by
  rw [makeDir]
  cases hf : d.find p with
  | error e => exact .refl p d
  | ok found =>
    cases found with
    | some n => exact .refl p d
    | none =>
      obtain ⟨-, hacc, hnode⟩ := find_ok_iff.mp hf
      refine ⟨rfl, rfl, fun q hq => ?_, fun q hq hq' => ?_⟩
      · rw [node?_link]
        cases hn : d.node? q with
        | none => exact absurd hn hq
        | some n => rfl
      · have hp : q = p := by
          refine Classical.byContradiction fun hne => ?_
          rw [node?_link, hq, if_neg hne] at hq'
          exact hq' rfl
        subst hp
        refine ⟨by simp [node?_link, hq], List.prefix_refl _, fun x hx hne => ?_⟩
        rw [node?_link, hacc x hx hne]
        rfl

/-- Makes a directory right inside one that is there, or takes the one that is there already. -/
def takeDir (p : Path) (d : Disk) : Except Fault Unit × Disk :=
  match d.find p with
  | .error e => (.error e, d)
  | .ok none => (.ok (), d.link p .dir)
  | .ok (some .dir) => (.ok (), d)
  | .ok (some (.file _)) => (.error (.system .exists), d)

theorem takeDir_made (p : Path) (d : Disk) : Made p d (takeDir p d).2 := by
  have hmade := makeDir_made p d
  rw [makeDir] at hmade
  rw [takeDir]
  split
  · exact .refl p d
  · rename_i hf
    simpa only [hf] using hmade
  · exact .refl p d
  · exact .refl p d

/-- Whether a directory was made or was there already is all the same. -/
theorem makeDir_takes (p : Path) (d : Disk) :
    (makeDir p >>= fun
      | .ok () => pure (.ok ())
      | .error e => get >>= fun d => pure (if d.isDir p then .ok () else .error e)) d =
      takeDir p d := by
  simp only [bind, StateT.bind, takeDir, makeDir]
  cases hf : d.find p with
  | error e =>
    have hdir : d.isDir p = false := by simp only [isDir, hf]
    change (if d.isDir p then Except.ok () else Except.error e, d) = _
    rw [hdir]
    rfl
  | ok found =>
    match found with
    | none => rfl
    | some .dir =>
      have hdir : d.isDir p = true := by simp only [isDir, hf]
      change (if d.isDir p then Except.ok () else Except.error _, d) = _
      rw [hdir]
      rfl
    | some (.file id) =>
      have hdir : d.isDir p = false := by simp only [isDir, hf]
      change (if d.isDir p then Except.ok () else Except.error _, d) = _
      rw [hdir]
      rfl

/-- If something above the last name is missing, that is made first. -/
theorem makeDirs_concat (above : Path) (name : String) (d : Disk) :
    makeDirs (above ++ [name]) d =
      match d.find (above ++ [name]) with
      | .ok _ => takeDir (above ++ [name]) d
      | .error e =>
        if e.kind ≠ .notFound then (.error e, d)
        else
          match makeDirs above d with
          | (.error e, d') => (.error e, d')
          | (.ok (), d') => takeDir (above ++ [name]) d' := by
  have hp : (name :: above.reverse).reverse = above ++ [name] := by simp
  have hr : (above ++ [name]).reverse = name :: above.reverse := by simp
  rw [makeDirs, hr, makeDirsUp, hp]
  have htake := makeDir_takes (above ++ [name]) d
  simp only [bind, StateT.bind] at htake ⊢
  cases hf : d.find (above ++ [name]) with
  | ok found =>
    cases found with
    | none =>
      have hm : makeDir (above ++ [name]) d = (.ok (), d.link (above ++ [name]) .dir) := by
        simp only [makeDir, hf]
      rw [hm] at htake ⊢
      exact htake
    | some n =>
      have hm : makeDir (above ++ [name]) d = (.error (.system .exists), d) := by
        simp only [makeDir, hf]
      rw [hm] at htake ⊢
      exact htake
  | error e =>
    have hm : makeDir (above ++ [name]) d = (.error e, d) := by simp only [makeDir, hf]
    rw [hm]
    dsimp only
    split
    · have hdir : d.isDir (above ++ [name]) = false := by simp only [isDir, hf]
      change (if d.isDir (above ++ [name]) then Except.ok () else Except.error e, d) = _
      rw [hdir]
      rfl
    · cases hup : makeDirs above d with
      | mk reply d' =>
        rw [makeDirs] at hup
        simp only [StateT.bind, hup]
        cases reply with
        | error e => rfl
        | ok _ => exact makeDir_takes (above ++ [name]) d'

theorem makeDirs_made (p : Path) (d : Disk) : Made p d (makeDirs p d).2 := by
  induction p using List.reverseRecOn generalizing d with
  | nil => exact .refl [] d
  | append_singleton above name ih =>
    rw [makeDirs_concat]
    split
    · exact takeDir_made _ d
    · split
      · exact .refl _ d
      · have hup := (ih d).mono (List.prefix_append above [name])
        split
        · rename_i hfail
          rwa [hfail] at hup
        · rename_i hdone
          rw [hdone] at hup
          exact hup.trans (takeDir_made _ _)

theorem takeDir_ready (h : takeDir p d = (.ok (), d')) :
    Fits p ∧ ∀ q, q <+: p → d'.node? q = some .dir := by
  have hmade := takeDir_made p d
  rw [h] at hmade
  rw [takeDir] at h
  split at h
  · cases h
  · rename_i hf
    cases h
    obtain ⟨fits, hacc, hnode⟩ := find_ok_iff.mp hf
    refine ⟨fits, fun q hq => ?_⟩
    by_cases he : q = p
    · rw [he, node?_link, hnode, if_pos rfl]
      rfl
    · exact hmade.dir (hacc q hq he)
  · rename_i hf
    cases h
    obtain ⟨fits, hacc, hnode⟩ := find_ok_iff.mp hf
    exact ⟨fits, fun q hq => hacc.through hnode hq⟩
  · cases h

/-- When directories could be made, all on the way are there. -/
theorem makeDirs_ready (h : makeDirs p d = (.ok (), d')) :
    Fits p ∧ ∀ q, q <+: p → d'.node? q = some .dir := by
  induction p using List.reverseRecOn generalizing d d' with
  | nil =>
    refine ⟨⟨rfl, Nat.zero_le _, by simp⟩, fun q hq => ?_⟩
    rw [List.prefix_nil.mp hq, node?_nil]
  | append_singleton above name ih =>
    rw [makeDirs_concat] at h
    split at h
    · exact takeDir_ready h
    · split at h
      · cases h
      · split at h
        · cases h
        · exact takeDir_ready h

/-- No file stands on the way to a path. -/
def Clear (d : Disk) (p : Path) : Prop := ∀ q, q <+: p → ∀ id, d.node? q ≠ some (.file id)

theorem takeDir_ok (fits : Fits p) (hacc : d.Accessible p) (clear : d.Clear p) :
    (takeDir p d).1 = .ok () := by
  have hf := find_ok_iff.mpr ⟨fits, hacc, rfl⟩
  rw [takeDir, hf]
  match hn : d.node? p with
  | none => rfl
  | some .dir => rfl
  | some (.file id) => exact absurd hn (clear p (List.prefix_refl p) id)

theorem makeDirs_ok (fits : Fits p) (clear : d.Clear p) : (makeDirs p d).1 = .ok () := by
  induction p using List.reverseRecOn generalizing d with
  | nil => rfl
  | append_singleton above name ih =>
    have hup : above <+: above ++ [name] := List.prefix_append above [name]
    rw [makeDirs_concat]
    rcases find_through fits (fun q hq _ => clear q hq) with hf | ⟨hf, -⟩
    · rw [hf]
      exact takeDir_ok fits (find_ok_iff.mp hf).2.1 clear
    · rw [hf]
      cases hm : makeDirs above d with
      | mk reply d' =>
        have hok := ih (fits.above hup) fun q hq => clear q (hq.trans hup)
        have hmade := makeDirs_made above d
        rw [hm] at hok hmade
        cases hok
        have hacc : d'.Accessible (above ++ [name]) := by
          rw [accessible_iff, List.dropLast_concat]
          exact (makeDirs_ready hm).2
        exact takeDir_ok fits hacc fun q hq id hfile => clear q hq id (hmade.file hfile)

theorem makeDirs_there (fits : Fits p) (clear : d.Clear p) :
    ∀ q, q <+: p → (makeDirs p d).2.node? q = some .dir := by
  have hok := makeDirs_ok fits clear
  cases hm : makeDirs p d with
  | mk reply d' =>
    rw [hm] at hok
    cases hok
    exact (makeDirs_ready hm).2

/-- A path that goes on behind what fits can be followed through that, unless something is missing.
-/
theorem front_there {more : Path} (fits : Fits p) (clear : d.Clear p)
    (nul : (p ++ more).any (·.contains '\x00') = false) (size : pathSize (p ++ more) ≤ pathLimit)
    (hmore : more ≠ []) (h : d.find (p ++ more) ≠ .error (.system .noEntry)) :
    ∀ q, q <+: p → d.node? q = some .dir := by
  intro q hq
  have hp : p <+: p ++ more := List.prefix_append p more
  cases hf : d.find (p ++ more) with
  | ok found =>
    obtain ⟨-, hacc, -⟩ := find_ok_iff.mp hf
    refine hacc q (hq.trans hp) ?_
    rintro rfl
    have hlen := hq.length_le
    have hpos := List.length_pos_iff.mpr hmore
    rw [List.length_append] at hlen
    omega
  | error e =>
    cases find_error hf with
    | nul hnul =>
      rw [nul] at hnul
      cases hnul
    | size hsize => exact absurd size (Nat.not_le.mpr hsize)
    | @long front back name parts way hlong =>
      have hfront : front <+: p ++ more := ⟨_, parts.symm⟩
      rcases List.prefix_or_prefix_of_prefix hp hfront with hpf | hfp
      · exact way q (hq.trans hpf)
      · obtain ⟨rest, rfl⟩ := hfp
        cases rest with
        | nil =>
          rw [List.append_nil] at hq
          exact way q hq
        | cons first rest =>
          have hfirst : first = name := by
            simp only [List.append_assoc, List.append_cancel_left_eq, List.cons_append] at parts
            exact (List.cons.inj parts).1
          have hshort := fits.names name (by simp [hfirst])
          omega
    | @file front back id parts hback way short hfile =>
      have hfront : front <+: p ++ more := ⟨_, parts.symm⟩
      rcases List.prefix_or_prefix_of_prefix hp hfront with hpf | hfp
      · refine way q (hq.trans hpf) ?_
        rintro rfl
        exact clear q hq id hfile
      · exact absurd hfile (clear front hfp id)
    | missing => exact absurd hf h

/-- What fits at the front of a path is made even if the rest has a name that is too long. -/
theorem makeDirs_front {more : Path} (fits : Fits p) (clear : d.Clear p)
    (nul : (p ++ more).any (·.contains '\x00') = false) (size : pathSize (p ++ more) ≤ pathLimit) :
    ∀ q, q <+: p → (makeDirs (p ++ more) d).2.node? q = some .dir := by
  induction more using List.reverseRecOn generalizing d with
  | nil =>
    rw [List.append_nil]
    exact makeDirs_there fits clear
  | append_singleton more name ih =>
    have hup : p ++ more <+: p ++ (more ++ [name]) := by
      rw [← List.append_assoc]
      exact List.prefix_append _ _
    intro q hq
    by_cases hf : d.find (p ++ (more ++ [name])) = .error (.system .noEntry)
    · have hdir : (makeDirs (p ++ more) d).2.node? q = some .dir :=
        ih clear (nul_above nul hup) (Nat.le_trans (pathSize_le hup) size) q hq
      rw [← List.append_assoc, makeDirs_concat, List.append_assoc, hf]
      dsimp only
      split
      · contradiction
      · cases hm : makeDirs (p ++ more) d with
        | mk reply d' =>
          rw [hm] at hdir
          cases reply with
          | error e => exact hdir
          | ok _ => exact (takeDir_made _ d').dir hdir
    · exact (makeDirs_made _ d).dir (front_there fits clear nul size (by simp) hf q hq)

end ImageCache.Disk
