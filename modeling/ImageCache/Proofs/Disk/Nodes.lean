import ImageCache.Proofs.Disk.Lookup

namespace ImageCache.Disk

/-- Short enough for a path and made of names that are short enough, all without NUL. -/
structure Fits (p : Path) : Prop where
  nul : p.any (·.contains '\x00') = false
  size : pathSize p ≤ pathLimit
  names : ∀ name ∈ p, name.utf8ByteSize ≤ nameLimit

/-- Everything strictly above the path is a directory. -/
def Accessible (d : Disk) (p : Path) : Prop := ∀ q, q <+: p → q ≠ p → d.node? q = some .dir

theorem pathSize_le {p q : Path} (h : p <+: q) : pathSize p ≤ pathSize q := by
  obtain ⟨rest, rfl⟩ := h
  rw [pathSize_append]
  exact Nat.le_add_right _ _

theorem nul_above {p q : Path} (h : q.any (·.contains '\x00') = false) (hp : p <+: q) :
    p.any (·.contains '\x00') = false := by
  rw [List.any_eq_false] at h ⊢
  intro name hm
  exact h name (hp.subset hm)

/-- What is above a path fits if the path does. -/
theorem Fits.above {p q : Path} (h : Fits q) (hp : p <+: q) : Fits p where
  nul := nul_above h.nul hp
  size := Nat.le_trans (pathSize_le hp) h.size
  names name hm := h.names name (hp.subset hm)

theorem fits_iff {p : Path} : Fits p ↔ (∀ name ∈ p, '\x00' ∉ name.toList) ∧
    pathSize p ≤ pathLimit ∧ ∀ name ∈ p, name.utf8ByteSize ≤ nameLimit := by
  have hnul : p.any (·.contains '\x00') = false ↔ ∀ name ∈ p, '\x00' ∉ name.toList := by simp
  rw [← hnul]
  constructor
  · intro h
    exact ⟨h.nul, h.size, h.names⟩
  · intro h
    exact ⟨h.1, h.2.1, h.2.2⟩

instance (p : Path) : Decidable (Fits p) := decidable_of_iff' _ fits_iff

theorem Accessible.through {d : Disk} {p : Path} (h : d.Accessible p) (hp : d.node? p = some .dir)
    {q : Path} (hq : q <+: p) : d.node? q = some .dir := by
  by_cases he : q = p
  · rw [he, hp]
  · exact h q hq he

@[simp]
theorem node?_nil (d : Disk) : d.node? [] = some .dir := rfl

/-- A path is accessible if its directory is there. -/
theorem accessible_iff {d : Disk} {p : Path} :
    d.Accessible p ↔ ∀ q, q <+: p.dropLast → d.node? q = some .dir := by
  rcases List.eq_nil_or_concat p with rfl | ⟨front, name, rfl⟩
  · constructor
    · intro _ q hq
      rw [List.prefix_nil.mp hq, node?_nil]
    · intro h q hq _
      exact h q hq
  · rw [List.concat_eq_append, List.dropLast_concat]
    constructor
    · intro h q hq
      apply h q (hq.trans (List.prefix_append front [name]))
      rintro rfl
      exact absurd hq.length_le (by simp)
    · intro h q hq hne
      exact h q ((List.prefix_concat_iff.mp hq).resolve_left hne)

/-- The top directory is always there. -/
theorem accessible_top {p : Path} (h : p.dropLast = []) (d : Disk) : d.Accessible p := by
  rw [accessible_iff, h]
  intro q hq
  rw [List.prefix_nil.mp hq, node?_nil]

section Following

variable {d : Disk} {p : Path} {found : Option Node}

theorem walk_ok_iff {above : Path} {names : List String} : d.walk above names = .ok found ↔
    (∀ name ∈ names, name.utf8ByteSize ≤ nameLimit) ∧ d.node? (above ++ names) = found ∧
      ∀ q, q <+: names → q ≠ names → q ≠ [] → d.node? (above ++ q) = some .dir := by
  induction names generalizing above with
  | nil => simp [walk]
  | cons name rest ih =>
    have hfirst : (∀ q, q <+: name :: rest → q ≠ name :: rest → q ≠ [] →
        d.node? (above ++ q) = some .dir) ↔ (rest ≠ [] → d.node? (above ++ [name]) = some .dir) ∧
          ∀ q, q <+: rest → q ≠ rest → q ≠ [] → d.node? (above ++ [name] ++ q) = some .dir := by
      constructor
      · intro h
        refine ⟨fun hr => h [name] ⟨rest, rfl⟩ (by simpa using hr.symm) (by simp), ?_⟩
        intro q hq hne _
        have hall := h (name :: q) ((List.prefix_cons_inj name).mpr hq) (by simpa using hne)
          (by simp)
        simpa using hall
      · rintro ⟨hdir, h⟩ q hq hne hnil
        obtain ⟨q, rfl⟩ : ∃ q', q = name :: q' := by
          obtain ⟨first, q', rfl⟩ := List.exists_cons_of_ne_nil hnil
          obtain ⟨rfl, -⟩ := List.cons_prefix_cons.mp hq
          exact ⟨q', rfl⟩
        have hq' := (List.prefix_cons_inj name).mp hq
        have hne' : q ≠ rest := by simpa using hne
        by_cases he : q = []
        · subst he
          exact hdir hne'.symm
        · simpa using h q hq' hne' he
    rw [hfirst]
    cases rest with
    | nil =>
      rw [walk]
      split
      · rename_i hlong
        simp [Nat.not_le.mpr hlong]
      · rename_i hshort
        simp [Nat.not_lt.mp hshort]
    | cons next rest =>
      rw [walk_on]
      split
      · rename_i hlong
        simp [Nat.not_le.mpr hlong]
      · rename_i hshort
        split
        · rename_i hdir
          rw [ih, hdir, List.append_assoc above [name], List.singleton_append]
          simp [Nat.not_lt.mp hshort]
        · rename_i hfile
          simp [hfile]
        · rename_i hnone
          simp [hnone]

theorem find_ok_iff : d.find p = .ok found ↔ Fits p ∧ d.Accessible p ∧ d.node? p = found := by
  have hwalk : d.walk [] p = .ok found ↔ _ := walk_ok_iff
  have hway : (∀ q, q <+: p → q ≠ p → q ≠ [] → d.node? ([] ++ q) = some .dir) ↔
      d.Accessible p := by
    constructor
    · intro h q hq hne
      by_cases he : q = []
      · rw [he, node?_nil]
      · exact h q hq hne he
    · intro h q hq hne _
      exact h q hq hne
  rw [hway, List.nil_append] at hwalk
  constructor
  · intro h
    obtain ⟨hnul, hw⟩ := find_ok h
    obtain ⟨hnames, hnode, hacc⟩ := hwalk.mp hw
    refine ⟨⟨hnul, ?_, hnames⟩, hacc, hnode⟩
    rw [find, hnul, if_neg Bool.false_ne_true] at h
    refine Nat.not_lt.mp fun hc => ?_
    rw [if_pos hc] at h
    cases h
  · rintro ⟨fits, hacc, hnode⟩
    rw [find, fits.nul, if_neg Bool.false_ne_true, if_neg (Nat.not_lt.mpr fits.size),
      hwalk.mpr ⟨fits.names, hnode, hacc⟩]
    rfl

inductive Obstacle (d : Disk) (p : Path) : Fault → Prop
  | nul (h : p.any (·.contains '\x00') = true) : Obstacle d p .nulInName
  | size (h : pathLimit < pathSize p) : Obstacle d p (.system .nameTooLong)
  | long {front back : Path} {name : String} (parts : p = front ++ name :: back)
      (way : ∀ q, q <+: front → d.node? q = some .dir) (h : nameLimit < name.utf8ByteSize) :
      Obstacle d p (.system .nameTooLong)
  | file {front back : Path} {id : FileId} (parts : p = front ++ back) (more : back ≠ [])
      (way : d.Accessible front) (short : ∀ name ∈ front, name.utf8ByteSize ≤ nameLimit)
      (h : d.node? front = some (.file id)) : Obstacle d p (.system .notADirectory)
  | missing {front back : Path} (parts : p = front ++ back) (more : back ≠ [])
      (way : d.Accessible front) (short : ∀ name ∈ front, name.utf8ByteSize ≤ nameLimit)
      (h : d.node? front = none) : Obstacle d p (.system .noEntry)

theorem walk_error {above : Path} {names : List String} {e : SystemFault}
    (h : d.walk above names = .error e) : ∃ front name back, names = front ++ name :: back ∧
      (∀ q, q <+: front → q ≠ [] → d.node? (above ++ q) = some .dir) ∧
      (∀ other ∈ front, other.utf8ByteSize ≤ nameLimit) ∧
      (e = .nameTooLong ∧ nameLimit < name.utf8ByteSize ∨
        name.utf8ByteSize ≤ nameLimit ∧ back ≠ [] ∧
          (e = .notADirectory ∧ (∃ id, d.node? (above ++ front ++ [name]) = some (.file id)) ∨
            e = .noEntry ∧ d.node? (above ++ front ++ [name]) = none)) := by
  induction names generalizing above with
  | nil => cases h
  | cons name rest ih =>
    by_cases hlong : nameLimit < name.utf8ByteSize
    · rw [walk.eq_def] at h
      dsimp only at h
      rw [if_pos hlong] at h
      cases h
      exact ⟨[], name, rest, rfl, by simp, by simp, .inl ⟨rfl, hlong⟩⟩
    · have hshort := Nat.not_lt.mp hlong
      cases rest with
      | nil =>
        rw [walk, if_neg hlong] at h
        cases h
      | cons next rest =>
        rw [walk_on, if_neg hlong] at h
        split at h
        · rename_i hdir
          obtain ⟨front, last, back, hparts, hway, hnames, hwhy⟩ := ih h
          refine ⟨name :: front, last, back, by rw [hparts, List.cons_append], ?_,
            List.forall_mem_cons.mpr ⟨hshort, hnames⟩, by simpa using hwhy⟩
          intro q hq hne
          obtain ⟨first, q, rfl⟩ := List.exists_cons_of_ne_nil hne
          obtain ⟨rfl, hfront⟩ := List.cons_prefix_cons.mp hq
          by_cases he : q = []
          · rwa [he]
          · simpa using hway q hfront he
        · rename_i id hfile
          cases h
          exact ⟨[], name, next :: rest, rfl, by simp, by simp,
            .inr ⟨hshort, by simp, .inl ⟨rfl, id, by simpa using hfile⟩⟩⟩
        · rename_i hnone
          cases h
          exact ⟨[], name, next :: rest, rfl, by simp, by simp,
            .inr ⟨hshort, by simp, .inr ⟨rfl, by simpa using hnone⟩⟩⟩

theorem find_error {e : Fault} (h : d.find p = .error e) : Obstacle d p e := by
  rw [find] at h
  split at h
  · rename_i hnul
    cases h
    exact .nul hnul
  · split at h
    · rename_i hsize
      cases h
      exact .size hsize
    · cases hw : d.walk [] p with
      | ok found =>
        rw [hw] at h
        cases h
      | error cause =>
        rw [hw] at h
        cases h
        obtain ⟨front, name, back, rfl, hway, hnames, hwhy⟩ := walk_error hw
        have hdirs : ∀ q, q <+: front → d.node? q = some .dir := by
          intro q hq
          by_cases he : q = []
          · rw [he, node?_nil]
          · exact hway q hq he
        rcases hwhy with ⟨rfl, hlong⟩ | ⟨hshort, hmore, hwhy⟩
        · exact .long rfl hdirs hlong
        · have hparts : front ++ name :: back = front ++ [name] ++ back := by simp
          have hacc : d.Accessible (front ++ [name]) := by
            rwa [accessible_iff, List.dropLast_concat]
          have hnames : ∀ other ∈ front ++ [name], other.utf8ByteSize ≤ nameLimit := by
            simpa [or_imp, forall_and] using ⟨hnames, hshort⟩
          rcases hwhy with ⟨rfl, id, hfile⟩ | ⟨rfl, hnone⟩
          · exact .file hparts hmore hacc hnames hfile
          · exact .missing hparts hmore hacc hnames hnone

/-- Where no file is in the way, the path is followed to its end, or to where something is missing.
-/
theorem find_through (fits : Fits p)
    (clear : ∀ q, q <+: p → q ≠ p → ∀ id, d.node? q ≠ some (.file id)) :
    d.find p = .ok (d.node? p) ∨ d.find p = .error (.system .noEntry) ∧ ¬ d.Accessible p := by
  cases hf : d.find p with
  | ok found =>
    obtain ⟨-, -, rfl⟩ := find_ok_iff.mp hf
    exact .inl rfl
  | error e =>
    refine .inr ?_
    have strict : ∀ {front back : Path}, p = front ++ back → back ≠ [] →
        front <+: p ∧ front ≠ p := by
      rintro front back rfl hne
      exact ⟨List.prefix_append _ _, by simpa using hne.symm⟩
    cases find_error hf with
    | nul h =>
      rw [fits.nul] at h
      cases h
    | size h => exact absurd fits.size (Nat.not_le.mpr h)
    | long parts way h => exact absurd (fits.names _ (by simp [parts])) (Nat.not_le.mpr h)
    | file parts more way short h =>
      obtain ⟨hp, hne⟩ := strict parts more
      exact absurd h (clear _ hp hne _)
    | missing parts more way short h =>
      obtain ⟨hp, hne⟩ := strict parts more
      refine ⟨rfl, fun hacc => ?_⟩
      rw [hacc _ hp hne] at h
      cases h

end Following

section Changes

variable {d : Disk} {p q : Path}

theorem node?_link (d : Disk) (p : Path) (n : Node) (q : Path) :
    (d.link p n).node? q = (d.node? q).or (if q = p then some n else none) := by
  rw [node?, node?]
  split
  · rfl
  · rw [link, List.lookup_append, List.lookup_cons, List.lookup_nil]
    by_cases he : q = p
    · simp [he]
    · rw [if_neg he, beq_eq_false_iff_ne.mpr he]

theorem node?_unlink (d : Disk) {p : Path} (hp : p ≠ []) (q : Path) :
    (d.unlink p).node? q = if q = p then none else d.node? q := by
  by_cases he : q = p
  · subst he
    rw [if_pos rfl, node?, if_neg hp, unlink, List.lookup_eq_none_iff]
    intro node hm
    simpa using Ne.symm (of_decide_eq_true (List.mem_filter.mp hm).2)
  · rw [if_neg he, node?, node?, unlink]
    split
    · rfl
    · exact lookup_filter _ fun _ => by simpa using he

theorem lookup_skip {α β : Type} [BEq α] [LawfulBEq α] {a k : α} (h : a ≠ k) (b : β)
    (l : List (α × β)) : ((k, b) :: l).lookup a = l.lookup a := by
  rw [List.lookup_cons, beq_eq_false_iff_ne.mpr h]

/-- What is found in a list of nodes when all at one path or below it have moved to another, where
nothing was. -/
theorem lookup_moved (source : Path) {target : Path} {nodes : List (Path × Node)}
    (free : ∀ node ∈ nodes, node.1 ≠ target) (hq : target <+: q → q = target) :
    (nodes.map fun (x, n) =>
        if source.isPrefixOf x then (target ++ x.drop source.length, n) else (x, n)).lookup q =
      if q = target then nodes.lookup source
      else if source <+: q then none else nodes.lookup q := by
  induction nodes with
  | nil => simp
  | cons node rest ih =>
    obtain ⟨x, n⟩ := node
    obtain ⟨hx, hrest⟩ := List.forall_mem_cons.mp free
    have ih := ih hrest
    rw [List.map_cons]
    by_cases hm : source <+: x
    · obtain ⟨back, rfl⟩ := hm
      simp only [List.isPrefixOf_iff_prefix.mpr (List.prefix_append source back), if_true,
        List.drop_left]
      by_cases hback : back = []
      · subst hback
        rw [List.append_nil, List.append_nil, List.lookup_cons_self]
        by_cases he : q = target
        · rw [he, List.lookup_cons_self, if_pos rfl]
        · rw [lookup_skip he, ih, if_neg he, if_neg he]
          split
          · rfl
          · rename_i hs
            rw [lookup_skip (by rintro rfl; exact hs (List.prefix_refl _))]
      · have hy : q ≠ target ++ back := by
          rintro rfl
          exact hback (by simpa using hq (List.prefix_append target back))
        rw [lookup_skip hy, ih, lookup_skip (by simpa using hback)]
        split
        · rfl
        · split
          · rfl
          · rename_i hs
            rw [lookup_skip (by rintro rfl; exact hs (List.prefix_append _ _))]
    · have hstays : source.isPrefixOf x = false := by
        rw [Bool.eq_false_iff]
        exact fun hc => hm (List.isPrefixOf_iff_prefix.mp hc)
      have hsx : source ≠ x := by
        rintro rfl
        exact hm (List.prefix_refl _)
      simp only [hstays, Bool.false_eq_true, if_false]
      rw [lookup_skip hsx]
      by_cases he : q = x
      · subst he
        rw [List.lookup_cons_self, if_neg hx, if_neg hm, List.lookup_cons_self]
      · rw [lookup_skip he, ih, lookup_skip he]

theorem node?_moved {source target : Path} (hs : source ≠ []) (ht : target ≠ [])
    (hne : source ≠ target) (hq : target <+: q → q = target) :
    ((d.unlink target).relocate source target).node? q =
      if q = target then d.node? source else if source <+: q then none else d.node? q := by
  have free : ∀ node ∈ (d.unlink target).nodes, node.1 ≠ target := fun node hm => by
    simpa using (List.mem_filter.mp hm).2
  have hmoved := lookup_moved source free hq
  have hlookup : ∀ x, x ≠ [] → (d.unlink target).nodes.lookup x = (d.unlink target).node? x := by
    intro x hx
    rw [node?, if_neg hx]
  by_cases hnil : q = []
  · subst hnil
    simp [Ne.symm ht, hs]
  · rw [hlookup source hs, hlookup q hnil, node?_unlink d ht, if_neg hne, node?_unlink d ht]
      at hmoved
    rw [node?, if_neg hnil, relocate, hmoved]
    split
    · rfl
    · rfl

theorem node?_ne_none {node : Path × Node} (h : node ∈ d.nodes) : d.node? node.1 ≠ none := by
  rw [node?]
  split
  · exact Option.some_ne_none _
  · intro hc
    have hno := List.lookup_eq_none_iff.mp hc node h
    simp at hno

/-- Whatever stands at a path or below it stands in a directory. -/
def Rooted (d : Disk) (root : Path) : Prop := ∀ q, root <+: q → d.node? q ≠ none → d.Accessible q

variable {root : Path}

/-- Nothing stands below what is no directory. -/
theorem Rooted.nothing_below (h : d.Rooted root) (hroot : root <+: p) (hp : d.node? p ≠ some .dir)
    (hq : p <+: q) (hne : p ≠ q) : d.node? q = none := by
  refine Classical.byContradiction fun hc => ?_
  exact hp (h q (hroot.trans hq) hc p hq hne)

/-- In a tree a file that moves leaves its old path and takes its new one, and that is all. -/
theorem Rooted.node?_moved (h : d.Rooted root) {source target : Path} {id : FileId}
    (hsr : root <+: source) (htr : root <+: target) (hs : d.node? source = some (.file id))
    (ht : d.node? target ≠ some .dir) (hne : source ≠ target) (q : Path) :
    ((d.unlink target).relocate source target).node? q =
      if q = target then some (.file id) else if q = source then none else d.node? q := by
  have hsource : source ≠ [] := by
    rintro rfl
    cases hs
  have htarget : target ≠ [] := by
    rintro rfl
    exact ht rfl
  have hsbelow : d.node? source ≠ some .dir := by
    rw [hs]
    nofun
  by_cases hq : target <+: q → q = target
  · rw [Disk.node?_moved hsource htarget hne hq, hs]
    by_cases he : q = target
    · rw [if_pos he, if_pos he]
    · rw [if_neg he, if_neg he]
      by_cases hsq : source <+: q
      · rw [if_pos hsq]
        split
        · rfl
        · rename_i hqs
          exact (h.nothing_below hsr hsbelow hsq (Ne.symm hqs)).symm
      · rw [if_neg hsq, if_neg (by rintro rfl; exact hsq (List.prefix_refl _))]
  · -- Nothing was below the target, and nothing comes there that was below the file.
    have hbelow : target <+: q ∧ q ≠ target := by simpa using hq
    obtain ⟨hq, hqt⟩ := hbelow
    have hno := h.nothing_below htr ht hq hqt.symm
    have hnil : q ≠ [] := by
      rintro rfl
      exact htarget (List.prefix_nil.mp hq)
    rw [if_neg hqt, hno, ite_self, node?, if_neg hnil, List.lookup_eq_none_iff]
    intro node hm
    rw [relocate] at hm
    obtain ⟨⟨x, n⟩, hx, rfl⟩ := List.mem_map.mp hm
    have hthere := node?_ne_none (List.mem_filter.mp hx).1
    rw [bne_iff_ne]
    dsimp only at hthere ⊢
    split
    · rename_i hsx
      obtain ⟨back, rfl⟩ := List.isPrefixOf_iff_prefix.mp hsx
      rintro rfl
      have hback : back ≠ [] := by
        rintro rfl
        simp at hqt
      exact hthere (h.nothing_below hsr hsbelow (List.prefix_append _ _)
        (by simpa using Ne.symm hback))
    · rintro rfl
      exact hthere hno

end Changes

end ImageCache.Disk
