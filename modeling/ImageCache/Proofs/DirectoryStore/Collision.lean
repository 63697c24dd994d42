import ImageCache.Proofs.DirectoryStore.AnyKey

namespace ImageCache

open Disk EntryPath

def StagingName (name : String) : Prop := ∃ stem, Proper stem ∧ name = stem ++ suffix

theorem StagingName.ending {name : String} (h : StagingName name) :
    suffix.toList.isSuffixOf name.toList = true := by
  obtain ⟨stem, -, rfl⟩ := h
  rw [String.toList_append, List.isSuffixOf_iff_suffix]
  exact List.suffix_append _ _

/-- What is done for a key, which leads to the first path, does not meet what is staged for another,
which leads to the second. -/
structure KeepsClear (s : DirectoryStore) (key other : String) (p q : Path) : Prop where
  apart : ¬ staging q <+: p
  placed : ∀ (d : Disk) (f : OpenFile), (s.read key d).1 = .ok (some f) → d.node? p = some f.node
  /-- What stands at the staging path or below it has no bearing on what a reader is given. -/
  unread : ∀ d d' : Disk, (∀ x, ¬ staging q <+: x → d'.node? x = d.node? x) →
    (s.read key d').1 = (s.read key d).1
  spared : ∀ (d : Disk) (w : StagedEntry), d.Rooted s.root → w.staging = staging p → w.final = p →
    d.node? w.staging ≠ some .dir → p ≠ q →
    (w.commit d).2.node? (staging q) = d.node? (staging q) ∧ (w.commit d).2.files = d.files
  /-- If the other key is in use after this one was opened, it was so before. -/
  free : ∀ d : Disk, d.Rooted s.root → p ≠ q →
    (s.stage other (s.stage key d).2).1 = .ok none → (s.stage other d).1 = .ok none

section Clear

variable {s : DirectoryStore} {key other : String} {p q : Path} {d : Disk}

/-- Opening a writer changes nothing but the staging path and the directories above the entry. -/
theorem node?_stage (h : resolve s.root key = .ok p) {x : Path} (hx : ¬ x <+: p.dropLast)
    (hne : x ≠ staging p) : (s.stage key d).2.node? x = d.node? x := by
  have hkept : ∀ {d' : Disk}, Made p.dropLast d d' → d'.node? x = d.node? x := by
    intro d' made
    apply Classical.byContradiction
    intro hc
    by_cases hn : d.node? x = none
    · rw [hn] at hc
      exact hx (made.new x hn hc).2.1
    · exact hc (made.kept x hn)
  obtain ⟨⟨reply, d'⟩, hs⟩ : ∃ out, s.stage key d = out := ⟨_, rfl⟩
  rw [hs]
  cases s.stage_opening h hs with
  | failed made => exact hkept made
  | taken made there => exact hkept made
  | opened made free =>
    rw [node?_created, if_neg hne, Option.or_none]
    exact hkept made

theorem read_placed (h : resolve s.root key = .ok p) {f : OpenFile}
    (hr : (s.read key d).1 = .ok (some f)) : d.node? p = some f.node := by
  rw [s.read_eq h] at hr
  cases hf : d.find p with
  | error e =>
    rw [hf] at hr
    dsimp only at hr
    split at hr <;> cases hr
  | ok found =>
    have hfound := (find_ok_iff.mp hf).2.2
    rw [hf] at hr
    match found with
    | none => cases hr
    | some .dir =>
      cases hr
      exact hfound
    | some (.file id) =>
      cases hr
      exact hfound

theorem unread_of_apart (h : resolve s.root key = .ok p) (apart : ¬ staging q <+: p) {d' : Disk}
    (same : ∀ x, ¬ staging q <+: x → d'.node? x = d.node? x) :
    (s.read key d').1 = (s.read key d).1 := by
  have hf : d'.find p = d.find p := by
    apply find_congr
    intro x hx
    exact same x fun hc => apart (hc.trans hx)
  rw [s.read_eq h, s.read_eq h, hf]
  cases d.find p with
  | error e => rfl
  | ok found =>
    match found with
    | none => rfl
    | some .dir => rfl
    | some (.file id) => rfl

theorem spared_of_apart (hp : Below s.root p) (hq : Below s.root q) (apart : ¬ staging q <+: p)
    {w : StagedEntry} (rooted : d.Rooted s.root) (hs : w.staging = staging p) (hf : w.final = p)
    (hdir : d.node? w.staging ≠ some .dir) (hne : p ≠ q) :
    (w.commit d).2.node? (staging q) = d.node? (staging q) ∧ (w.commit d).2.files = d.files := by
  have hstaging : staging q ≠ staging p := by
    intro he
    exact hne (staging_inj hp.ne_nil hq.ne_nil he.symm)
  have hfinal : staging q ≠ p := by
    rintro he
    exact apart (he ▸ List.prefix_refl _)
  rcases DirectoryStore.commit_cases hdir with hd | hd | ⟨id, hfile, htarget, hd⟩
  · rw [hd]
    exact ⟨rfl, rfl⟩
  · rw [hd, hs, node?_unlink d (staging_below hp).ne_nil, if_neg hstaging]
    exact ⟨rfl, rfl⟩
  · rw [hd]
    refine ⟨?_, rfl⟩
    rw [hs] at hfile ⊢
    rw [hf] at htarget ⊢
    rw [rooted.node?_moved (staging_below hp).root_above hp.root_above hfile htarget
      (staging_ne p), if_neg hfinal, if_neg hstaging]

theorem free_of_apart (h : resolve s.root key = .ok p) (ho : resolve s.root other = .ok q)
    (apart : ¬ staging q <+: p) (rooted : d.Rooted s.root) (hne : p ≠ q)
    (taken : (s.stage other (s.stage key d).2).1 = .ok none) : (s.stage other d).1 = .ok none := by
  have hq := resolve_below ho
  have hsame : (s.stage key d).2.node? (staging q) = d.node? (staging q) := by
    apply node?_stage h
    · intro hc
      exact apart (hc.trans (List.dropLast_prefix p))
    · intro he
      exact hne (staging_inj (resolve_below h).ne_nil hq.ne_nil he.symm)
  obtain ⟨⟨reply, d'⟩, hs⟩ : ∃ out, s.stage other (s.stage key d).2 = out := ⟨_, rfl⟩
  rw [hs] at taken
  subst taken
  cases s.stage_opening ho hs with
  | @taken n _ made there =>
    obtain ⟨fits, -, hthere⟩ := find_ok_iff.mp there
    have hnode : d.node? (staging q) = some n := by
      rw [← hsame]
      by_cases hn : (s.stage key d).2.node? (staging q) = none
      · have hnew := (made.new _ hn (by simp [hthere])).2.1
        exact absurd rfl (DirectoryStore.ne_staging hnew)
      · rw [← made.kept _ hn, hthere]
    have hacc := rooted _ (staging_below hq).root_above (by simp [hnode])
    rw [s.stage_conflict ho (find_ok_iff.mpr ⟨fits, hacc, hnode⟩)]

/-- Some entry is staged at a path or above it just if a name on the way there is a staging name. -/
theorem staged_above_iff (hp : Below s.root p) : (∃ q, Below s.root q ∧ staging q <+: p) ↔
    ∃ name ∈ p.drop s.root.length, StagingName name := by
  obtain ⟨rest, -, rfl, hrest⟩ := hp
  rw [List.drop_left]
  constructor
  · rintro ⟨q, hq, hpre⟩
    obtain ⟨front, stem, rfl, ⟨mid, rfl⟩, hstem⟩ := hq.last
    rw [staging_append, List.append_assoc, List.prefix_append_right_inj] at hpre
    exact ⟨stem ++ suffix, hpre.subset (by simp), stem, hstem, rfl⟩
  · rintro ⟨name, hm, stem, hstem, rfl⟩
    obtain ⟨front, back, rfl⟩ := List.append_of_mem hm
    refine ⟨s.root ++ front ++ [stem], ⟨front ++ [stem], by simp, by simp, ?_⟩, ?_⟩
    · intro other ho
      rcases List.mem_append.mp ho with hf | hs
      · exact hrest other (by simp [hf])
      · rw [List.mem_singleton.mp hs]
        exact hstem
    · rw [staging_append]
      exact ⟨back, by simp⟩

/-- The keys that never meet what is staged for others are those that lead to their entries through
no staging name. -/
theorem keeps_clear_iff (h : resolve s.root key = .ok p) :
    (∀ other q, resolve s.root other = .ok q → KeepsClear s key other p q) ↔
      ∀ name ∈ p.drop s.root.length, ¬ StagingName name := by
  have hp := resolve_below h
  constructor
  · intro hall name hm hstaging
    obtain ⟨q, hq, hpre⟩ := (staged_above_iff hp).mpr ⟨name, hm, hstaging⟩
    obtain ⟨other, ho⟩ := below_iff.mp hq
    exact (hall other q ho).apart hpre
  · intro hnone other q ho
    have hq := resolve_below ho
    have apart : ¬ staging q <+: p := by
      intro hpre
      obtain ⟨name, hm, hstaging⟩ := (staged_above_iff hp).mp ⟨q, hq, hpre⟩
      exact hnone name hm hstaging
    refine ⟨apart, ?_, ?_, ?_, ?_⟩
    · intro d f hr
      exact read_placed h hr
    · intro d d' same
      exact unread_of_apart h apart same
    · intro d w rooted hs hf hdir hne
      exact spared_of_apart hp hq apart rooted hs hf hdir hne
    · intro d rooted hne taken
      exact free_of_apart h ho apart rooted hne taken

end Clear

def topStore : DirectoryStore := ⟨[], 0, 600⟩

/-- With a slash behind it the name of a staged file is accepted for a key, and a reader of the key
is given the file of the live writer. -/
theorem staged_file_read :
    resolve topStore.root "a" = .ok ["a"] ∧ resolve topStore.root "a.tmp/" = .ok (staging ["a"]) ∧
      (topStore.stage "a" blank).1 = .ok (some ⟨⟨.file 0, 0⟩, staging ["a"], ["a"]⟩) ∧
      (topStore.read "a.tmp/" (topStore.stage "a" blank).2).1 = .ok (some ⟨.file 0, 0⟩) ∧
      ¬ KeepsClear topStore "a.tmp/" "a" (staging ["a"]) ["a"] := by
  have hkey : resolve topStore.root "a.tmp/" = .ok (staging ["a"]) := by decide
  have fits : Fits (staging ["a"]) := by decide
  have hacc : ∀ d : Disk, d.Accessible (staging ["a"]) := accessible_top rfl
  have hstage : topStore.stage "a" blank = (.ok (some ⟨⟨.file 0, 0⟩, staging ["a"], ["a"]⟩),
      blank.created (staging ["a"])) :=
    topStore.stage_opens (by decide) rfl (find_ok_iff.mpr ⟨fits, hacc _, rfl⟩)
  have hfind : (blank.created (staging ["a"])).find (staging ["a"]) = .ok (some (.file 0)) :=
    find_ok_iff.mpr ⟨fits, hacc _, rfl⟩
  refine ⟨by decide, hkey, by rw [hstage], ?_, fun h => h.apart (List.prefix_refl _)⟩
  rw [hstage, topStore.read_eq hkey, hfind]

/-- What matters is where the key leads, and not how it is spelled. -/
theorem inner_ending_keeps_clear :
    resolve topStore.root "b.tmp/../a.tmp.d//c" = .ok ["a.tmp.d", "c"] ∧
      ∀ other q, resolve topStore.root other = .ok q →
        KeepsClear topStore "b.tmp/../a.tmp.d//c" other ["a.tmp.d", "c"] q := by
  have h : resolve topStore.root "b.tmp/../a.tmp.d//c" = .ok ["a.tmp.d", "c"] := by decide
  refine ⟨h, (keeps_clear_iff h).mpr ?_⟩
  intro name hm hs
  have hnone : ∀ name ∈ ["a.tmp.d", "c"], suffix.toList.isSuffixOf name.toList = false := by decide
  have hending := hs.ending
  rw [hnone name hm] at hending
  cases hending

end ImageCache
