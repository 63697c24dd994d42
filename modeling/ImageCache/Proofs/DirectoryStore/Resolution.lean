import ImageCache.DirectoryStore.EntryPath

namespace ImageCache.EntryPath

/-- The name of something in a directory, and not of the directory itself or of the one above. -/
structure Proper (name : String) : Prop where
  nonempty : name ≠ ""
  here : name ≠ "."
  up : name ≠ ".."
  slash : '/' ∉ name.toList

/-- Strictly below a directory: the names of the directory and at least one more, with no step up
among them. -/
def Below (root p : Path) : Prop :=
  ∃ rest, rest ≠ [] ∧ p = root ++ rest ∧ ∀ name ∈ rest, Proper name

theorem Below.root_above {root p : Path} (h : Below root p) : root <+: p := by
  obtain ⟨rest, -, rfl, -⟩ := h
  exact List.prefix_append root rest

theorem Below.ne_root {root p : Path} (h : Below root p) : p ≠ root := by
  obtain ⟨rest, hne, rfl, -⟩ := h
  simpa using hne

theorem Below.ne_nil {root p : Path} (h : Below root p) : p ≠ [] := by
  obtain ⟨rest, hne, rfl, -⟩ := h
  simp [hne]

/-- A path below the root has a last name. -/
theorem Below.last {root p : Path} (h : Below root p) :
    ∃ front name, p = front ++ [name] ∧ root <+: front ∧ Proper name := by
  obtain ⟨rest, hne, rfl, hrest⟩ := h
  refine ⟨root ++ rest.dropLast, rest.getLast hne, ?_, List.prefix_append _ _,
    hrest _ (List.getLast_mem hne)⟩
  rw [List.append_assoc, List.dropLast_concat_getLast]

/-- The way to a path below the root leads to nothing but the root and paths below it. -/
theorem Below.between {root p q : Path} (h : Below root p) (hroot : root <+: q) (hq : q <+: p) :
    q = root ∨ Below root q := by
  obtain ⟨rest, -, rfl, hrest⟩ := h
  obtain ⟨front, rfl⟩ := hroot
  have hfront : front <+: rest := (List.prefix_append_right_inj root).mp hq
  by_cases he : front = []
  · simp [he]
  · exact .inr ⟨front, he, rfl, fun name hm => hrest name (hfront.subset hm)⟩

section Keys

theorem slash_not_mem_split {cs part : List Char} (h : part ∈ split cs) : '/' ∉ part := by
  induction cs generalizing part with
  | nil =>
    simp [split] at h
    simp [h]
  | cons c rest ih =>
    rw [split] at h
    split at h
    · rcases List.mem_cons.mp h with rfl | h
      · simp
      · exact ih h
    · rename_i hc
      split at h
      · rw [List.mem_singleton.mp h]
        simpa using Ne.symm hc
      · rename_i front back hs
        rcases List.mem_cons.mp h with rfl | h
        · have hf : '/' ∉ front := ih (by simp [hs])
          simpa using ⟨Ne.symm hc, hf⟩
        · exact ih (by simp [hs, h])

/-- Whatever a key has between its slashes is a step up or a name, or says nothing. -/
theorem proper_of_mem_names {key name : String} (h : name ∈ names key) :
    name = ".." ∨ Proper name := by
  simp only [names, List.mem_filter, List.mem_map, decide_eq_true_eq] at h
  obtain ⟨⟨part, hp, rfl⟩, hne, hdot⟩ := h
  by_cases hup : String.ofList part = ".."
  · exact .inl hup
  · exact .inr ⟨hne, hdot, hup, by simpa using slash_not_mem_split hp⟩

variable {P : String → Prop}

/-- Steps from a directory lead up to one of those above it and then down. -/
theorem follow_shape {root : Path} {steps : List String}
    (h : ∀ name ∈ steps, name = ".." ∨ P name) : ∃ kept gone, kept <+: root ∧
      follow root steps = kept ++ gone ∧ ∀ name ∈ gone, P name := by
  suffices hgen : ∀ p : Path,
      (∃ kept gone, kept <+: root ∧ p = kept ++ gone ∧ ∀ name ∈ gone, P name) →
      ∃ kept gone, kept <+: root ∧ follow p steps = kept ++ gone ∧ ∀ name ∈ gone, P name by
    exact hgen root ⟨root, [], List.prefix_refl root, by simp, by simp⟩
  induction steps with
  | nil =>
    intro p hp
    exact hp
  | cons name rest ih =>
    rintro p ⟨kept, gone, hkept, rfl, hgone⟩
    refine ih (fun other hm => h other (List.mem_cons_of_mem _ hm)) _ ?_
    rw [step]
    split
    · rcases List.eq_nil_or_concat gone with rfl | ⟨gone, last, rfl⟩
      · exact ⟨kept.dropLast, [], (List.dropLast_prefix kept).trans hkept, by simp, by simp⟩
      · refine ⟨kept, gone, hkept, ?_, fun other hm => hgone other (by simp [hm])⟩
        rw [List.concat_eq_append, ← List.append_assoc, List.dropLast_concat]
    · rename_i hup
      refine ⟨kept, gone ++ [name], hkept, List.append_assoc _ _ _, fun other hm => ?_⟩
      rcases List.mem_append.mp hm with hm | hm
      · exact hgone other hm
      · rw [List.mem_singleton.mp hm]
        exact (h name List.mem_cons_self).resolve_left hup

/-- Steps that end below the root have come down to there by names of their own. -/
theorem follow_below {root : Path} {steps : List String}
    (h : ∀ name ∈ steps, name = ".." ∨ P name) (hp : root <+: follow root steps)
    (hne : follow root steps ≠ root) :
    ∃ rest, rest ≠ [] ∧ follow root steps = root ++ rest ∧ ∀ name ∈ rest, P name := by
  obtain ⟨kept, gone, hkept, hf, hgone⟩ : ∃ kept gone, kept <+: root ∧ _ := follow_shape h
  obtain ⟨back, rfl⟩ := hkept
  rw [hf] at hp hne ⊢
  rw [List.prefix_append_right_inj] at hp
  obtain ⟨rest, rfl⟩ := hp
  refine ⟨rest, ?_, (List.append_assoc kept back rest).symm, fun name hm =>
    hgone name (by simp [hm])⟩
  rintro rfl
  exact hne (by simp)

variable {root p : Path} {key : String}

theorem resolve_ok (h : resolve root key = .ok p) : p = follow root (names key) ∧ Below root p := by
  rw [resolve] at h
  split at h
  · cases h
  · split at h
    · cases h
    · dsimp only at h
      split at h
      · rename_i hc
        have hp := Except.ok.inj h
        rw [List.isPrefixOf_iff_prefix] at hc
        refine ⟨hp.symm, ?_⟩
        rw [← hp]
        exact follow_below (fun name hm => proper_of_mem_names hm) hc.1 hc.2
      · cases h

theorem resolve_below (h : resolve root key = .ok p) : Below root p := (resolve_ok h).2

/-- Below the root the path of a key has names of the key only. -/
theorem resolve_names (h : resolve root key = .ok p) (hP : ∀ name ∈ names key, P name) :
    ∃ rest, rest ≠ [] ∧ p = root ++ rest ∧ ∀ name ∈ rest, P name := by
  obtain ⟨rfl, below⟩ := resolve_ok h
  exact follow_below (fun name hm => .inr (hP name hm)) below.root_above below.ne_root

/-- A key that does not lead strictly below the root is refused. -/
theorem resolve_refused (h : ¬ Below root (follow root (names key))) :
    ∃ e, resolve root key = .error e := by
  cases hr : resolve root key with
  | error e => exact ⟨e, rfl⟩
  | ok p =>
    obtain ⟨rfl, hb⟩ := resolve_ok hr
    exact absurd hb h

/-- A key that leads down these names. It ends in a slash, so that it never ends like the name of a
staged file. -/
def spell (steps : List String) : String :=
  String.ofList (steps.flatMap fun name => name.toList ++ ['/'])

theorem split_append {cs rest : List Char} (h : '/' ∉ cs) :
    split (cs ++ '/' :: rest) = cs :: split rest := by
  induction cs with
  | nil => simp [split]
  | cons c cs ih =>
    rw [List.mem_cons, not_or] at h
    rw [List.cons_append, split, if_neg (Ne.symm h.1), ih h.2]

theorem split_spell {steps : List String} (h : ∀ name ∈ steps, Proper name) :
    split (spell steps).toList = steps.map String.toList ++ [[]] := by
  rw [spell, String.toList_ofList]
  induction steps with
  | nil => rfl
  | cons name rest ih =>
    obtain ⟨hn, hrest⟩ := List.forall_mem_cons.mp h
    rw [List.flatMap_cons, List.append_assoc, List.singleton_append, split_append hn.slash,
      ih hrest]
    rfl

theorem names_spell {steps : List String} (h : ∀ name ∈ steps, Proper name) :
    names (spell steps) = steps := by
  have hsaid : steps.filter (fun part => part ≠ "" ∧ part ≠ ".") = steps := by
    rw [List.filter_eq_self]
    intro name hm
    simpa using ⟨(h name hm).nonempty, (h name hm).here⟩
  simp [names, split_spell h, List.filter_append, Function.comp_def] at hsaid ⊢
  exact hsaid

theorem follow_proper {steps : List String} (h : ∀ name ∈ steps, Proper name) (p : Path) :
    follow p steps = p ++ steps := by
  induction steps generalizing p with
  | nil => simp [follow]
  | cons name rest ih =>
    obtain ⟨hn, hrest⟩ := List.forall_mem_cons.mp h
    have hf : follow p (name :: rest) = follow (p ++ [name]) rest := by
      simp [follow, step, hn.up]
    rw [hf, ih hrest]
    simp

theorem spell_ending {steps : List String} (hne : steps ≠ []) :
    spell steps ≠ "" ∧ suffix.toList.isSuffixOf (spell steps).toList = false := by
  obtain ⟨front, hfront⟩ : ∃ front, (spell steps).toList = front ++ ['/'] := by
    rw [← List.dropLast_concat_getLast hne, spell, String.toList_ofList, List.flatMap_append,
      List.flatMap_singleton, ← List.append_assoc]
    exact ⟨_, rfl⟩
  constructor
  · intro he
    simp [he] at hfront
  · rw [Bool.eq_false_iff]
    intro hs
    obtain ⟨cs, hcs⟩ := List.isSuffixOf_iff_suffix.mp hs
    have hl := congrArg List.getLast? (hcs.trans hfront)
    simp [suffix] at hl

theorem spell_head {steps : List String} (hne : steps ≠ []) (h : ∀ name ∈ steps, Proper name) :
    (spell steps).toList.head? ≠ some '/' := by
  obtain ⟨name, rest, rfl⟩ := List.exists_cons_of_ne_nil hne
  have hn := h name List.mem_cons_self
  have hname : name.toList ≠ [] := by
    intro he
    exact hn.nonempty (String.toList_inj.mp he)
  obtain ⟨c, cs, hc⟩ := List.exists_cons_of_ne_nil hname
  intro hs
  rw [spell, String.toList_ofList, List.flatMap_cons, hc] at hs
  have hslash : c = '/' := by simpa using hs
  exact hn.slash (by simp [hc, hslash])

theorem resolve_spell {steps : List String} (hne : steps ≠ []) (h : ∀ name ∈ steps, Proper name) :
    resolve root (spell steps) = .ok (root ++ steps) := by
  obtain ⟨hempty, hstaged⟩ := spell_ending hne
  have hfollow : follow root (names (spell steps)) = root ++ steps := by
    rw [names_spell h, follow_proper h]
  rw [resolve, if_neg (by simp [hempty, hstaged]), if_neg (spell_head hne h)]
  simp [hfollow, hne]

/-- The keys of a store lead to all that is strictly below its root, and to nothing else. -/
theorem below_iff : Below root p ↔ ∃ key, resolve root key = .ok p := by
  constructor
  · rintro ⟨rest, hne, rfl, hrest⟩
    exact ⟨spell rest, resolve_spell hne hrest⟩
  · rintro ⟨key, h⟩
    exact resolve_below h

end Keys

section Staging

theorem staging_append (front : Path) (name : String) :
    staging (front ++ [name]) = front ++ [name ++ suffix] := by
  simp [staging]

theorem staging_dropLast (p : Path) : (staging p).dropLast = p.dropLast := by
  rw [staging, List.dropLast_concat]

theorem isStaged_append (front : Path) (name : String) :
    isStaged (front ++ [name]) = suffix.toList.isSuffixOf name.toList := by
  simp [isStaged]

theorem isStaged_staging (p : Path) : isStaged (staging p) = true := by
  rw [staging, isStaged_append, List.isSuffixOf_iff_suffix, String.toList_append]
  exact List.suffix_append _ _

theorem staging_ne (p : Path) : staging p ≠ p := by
  rcases List.eq_nil_or_concat p with rfl | ⟨front, name, rfl⟩
  · simp [staging]
  · rw [List.concat_eq_append, staging_append]
    intro he
    have hn : name ++ suffix = name := by simpa using he
    have hl := congrArg (·.toList.length) hn
    simp [suffix] at hl

/-- The ending makes every name one that can be staged under. -/
theorem proper_staged (name : String) (h : '/' ∉ name.toList) : Proper (name ++ suffix) where
  nonempty := by
    intro he
    have hl := congrArg (·.toList.length) he
    simp [suffix] at hl
  here := by
    intro he
    have hl := congrArg (·.toList.length) he
    simp [suffix] at hl
  up := by
    intro he
    have hl := congrArg (·.toList.length) he
    simp [suffix] at hl
  slash := by
    rw [String.toList_append, List.mem_append, not_or]
    exact ⟨h, by decide⟩

variable {root p q : Path}

/-- Where an entry is staged another key could have its entry. -/
theorem staging_below (h : Below root p) : Below root (staging p) := by
  obtain ⟨rest, hne, rfl, hrest⟩ := h
  obtain ⟨front, name, rfl⟩ : ∃ front name, rest = front ++ [name] :=
    ⟨_, _, (List.dropLast_concat_getLast hne).symm⟩
  rw [← List.append_assoc, staging_append, List.append_assoc]
  refine ⟨front ++ [name ++ suffix], by simp, rfl, fun other hm => ?_⟩
  rcases List.mem_append.mp hm with hm | hm
  · exact hrest other (by simp [hm])
  · rw [List.mem_singleton.mp hm]
    exact proper_staged name (hrest name (by simp)).slash

theorem staging_inj (hp : p ≠ []) (hq : q ≠ []) (h : staging p = staging q) : p = q := by
  obtain ⟨front, name, rfl⟩ : ∃ front name, p = front ++ [name] :=
    ⟨_, _, (List.dropLast_concat_getLast hp).symm⟩
  obtain ⟨front', name', rfl⟩ : ∃ front name, q = front ++ [name] :=
    ⟨_, _, (List.dropLast_concat_getLast hq).symm⟩
  rw [staging_append, staging_append] at h
  obtain ⟨rfl, hn⟩ := List.append_inj' h rfl
  have hl := congrArg String.toList (List.singleton_inj.mp hn)
  rw [String.toList_append, String.toList_append] at hl
  rw [String.toList_inj.mp (List.append_cancel_right hl)]

end Staging

end ImageCache.EntryPath
