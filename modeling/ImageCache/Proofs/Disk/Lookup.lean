import ImageCache.Disk.Operations

namespace ImageCache.Disk

def isBelow (root : Path) (entry : Path × Node) : Bool :=
  root.isPrefixOf entry.1 && entry.1 != root

def outside (root : Path) (entry : Path × Node) : Bool := !isBelow root entry

theorem isBelow_iff {root : Path} {entry : Path × Node} :
    isBelow root entry = true ↔ root <+: entry.1 ∧ entry.1 ≠ root := by
  simp [isBelow]

@[simp]
theorem isBelow_child (root : Path) (name : String) (n : Node) :
    isBelow root (root ++ [name], n) = true := by
  simp [isBelow_iff]

theorem pathSize_append (p q : Path) : pathSize (p ++ q) = pathSize p + pathSize q := by
  induction p with
  | nil => simp [pathSize]
  | cons name rest ih =>
    simp only [pathSize, List.cons_append, List.foldr_cons] at ih ⊢
    omega

/-- What is kept of a list for its key alone can be looked up in it as before. -/
theorem lookup_filter {α β : Type} [BEq α] [LawfulBEq α] {keep : α × β → Bool} {a : α}
    (l : List (α × β)) (h : ∀ b, keep (a, b) = true) : (l.filter keep).lookup a = l.lookup a := by
  induction l with
  | nil => rfl
  | cons entry rest ih =>
    obtain ⟨k, b⟩ := entry
    by_cases hk : a = k
    · subst hk
      rw [List.filter_cons_of_pos (h b), List.lookup_cons_self, List.lookup_cons_self]
    · have hne : (a == k) = false := beq_eq_false_iff_ne.mpr hk
      cases hkeep : keep (k, b) with
      | true =>
        rw [List.filter_cons_of_pos hkeep, List.lookup_cons, List.lookup_cons, hne]
        exact ih
      | false =>
        rw [List.filter_cons_of_neg (by simp [hkeep]), List.lookup_cons, hne]
        exact ih

/-- Among distinct keys, every one is found with what it has. -/
theorem lookup_of_mem {α β : Type} [BEq α] [LawfulBEq α] {l : List (α × β)} {a : α} {b : β}
    (hd : (l.map (·.1)).Nodup) (hm : (a, b) ∈ l) : l.lookup a = some b := by
  induction l with
  | nil => cases hm
  | cons entry rest ih =>
    obtain ⟨k, c⟩ := entry
    obtain ⟨hk, hrest⟩ := List.nodup_cons.mp hd
    rcases List.mem_cons.mp hm with he | ht
    · cases he
      exact List.lookup_cons_self
    · have hne : (a == k) = false := by
        rw [beq_eq_false_iff_ne]
        rintro rfl
        exact hk (List.mem_map.mpr ⟨(a, b), ht, rfl⟩)
      rw [List.lookup_cons, hne]
      exact ih hrest ht

/-- Every name that another follows has to be that of a directory. -/
theorem walk_on (d : Disk) (above : Path) (name next : String) (rest : List String) :
    d.walk above (name :: next :: rest) =
      if nameLimit < name.utf8ByteSize then .error .nameTooLong
      else
        match d.node? (above ++ [name]) with
        | some .dir => d.walk (above ++ [name]) (next :: rest)
        | some (.file _) => .error .notADirectory
        | none => .error .noEntry := by
  rw [walk.eq_def]
  dsimp only
  cases d.node? (above ++ [name]) with
  | none => rfl
  | some n => cases n <;> rfl

theorem walk_congr {d d' : Disk} {above : Path} {names : List String}
    (h : ∀ q, q <+: above ++ names → d'.node? q = d.node? q) :
    d'.walk above names = d.walk above names := by
  induction names generalizing above with
  | nil => rw [walk, walk, h above (List.prefix_append above [])]
  | cons name rest ih =>
    have hn : d'.node? (above ++ [name]) = d.node? (above ++ [name]) := h _ ⟨rest, by simp⟩
    cases rest with
    | nil => rw [walk, walk, hn]
    | cons next rest =>
      have hr : d'.walk (above ++ [name]) (next :: rest) =
          d.walk (above ++ [name]) (next :: rest) :=
        ih fun q hq => h q (by simpa using hq)
      rw [walk_on, walk_on, hn, hr]

theorem find_congr {d d' : Disk} {p : Path} (h : ∀ q, q <+: p → d'.node? q = d.node? q) :
    d'.find p = d.find p := by
  have hw : d'.walk [] p = d.walk [] p := walk_congr (by simpa using h)
  rw [find, find, hw]

theorem outside_of_prefix {root q : Path} (h : q <+: root) (n : Node) :
    outside root (q, n) = true := by
  rw [outside, Bool.not_eq_true', Bool.eq_false_iff]
  intro hb
  obtain ⟨hp, hne⟩ := isBelow_iff.mp hb
  exact hne (h.eq_of_length_le hp.length_le)

/-- A change of nodes strictly below a path does not show at the path. -/
theorem find_outside {d d' : Disk} {root : Path}
    (h : d'.nodes.filter (outside root) = d.nodes.filter (outside root)) :
    d'.find root = d.find root := by
  refine find_congr fun q hq => ?_
  have hq := outside_of_prefix hq
  rw [node?, node?, ← lookup_filter d'.nodes hq, h, lookup_filter d.nodes hq]

theorem walk_child {d : Disk} {above : Path} {names : List String} (name : String)
    (h : d.walk above names = .ok (some .dir)) :
    d.walk above (names ++ [name]) =
      if nameLimit < name.utf8ByteSize then .error .nameTooLong
      else .ok (d.node? (above ++ names ++ [name])) := by
  induction names generalizing above with
  | nil => rw [List.nil_append, walk, List.append_nil]
  | cons first rest ih =>
    cases rest with
    | nil =>
      rw [walk] at h
      split at h
      · cases h
      · rename_i hshort
        have hd : d.node? (above ++ [first]) = some .dir := Except.ok.inj h
        rw [List.cons_append, List.nil_append, walk_on, if_neg hshort, hd]
        simp only [walk]
    | cons next rest =>
      rw [walk_on] at h
      split at h
      · cases h
      · rename_i hshort
        split at h
        · rename_i hd
          have hc := ih h
          rw [List.append_assoc above, List.singleton_append] at hc
          rw [List.cons_append, List.cons_append, walk_on, if_neg hshort, hd]
          exact hc
        · cases h
        · cases h

theorem find_ok {d : Disk} {p : Path} {found : Option Node} (h : d.find p = .ok found) :
    p.any (·.contains '\x00') = false ∧ d.walk [] p = .ok found := by
  unfold find at h
  split at h
  · cases h
  · rename_i hnul
    refine ⟨by simpa using hnul, ?_⟩
    split at h
    · cases h
    · cases hw : d.walk [] p with
      | error e =>
        rw [hw] at h
        cases h
      | ok found' =>
        rw [hw] at h
        cases h
        rfl

/-- What stands right inside a directory is found by its path. -/
theorem find_child {d : Disk} {p : Path} {name : String} (h : d.find p = .ok (some .dir))
    (hnul : name.contains '\x00' = false) (hname : name.utf8ByteSize ≤ nameLimit)
    (hpath : pathSize (p ++ [name]) ≤ pathLimit) :
    d.find (p ++ [name]) = .ok (d.node? (p ++ [name])) := by
  obtain ⟨hp, hw⟩ := find_ok h
  have hall : (p ++ [name]).any (·.contains '\x00') = false := by
    rw [List.any_append, hp, List.any_cons, hnul]
    rfl
  rw [find, hall, if_neg Bool.false_ne_true, if_neg (Nat.not_lt.mpr hpath), walk_child name hw,
    if_neg (Nat.not_lt.mpr hname), List.nil_append]
  rfl

/-- Below a directory a path may still be too long. -/
theorem find_child_long {d : Disk} {p : Path} {name : String} (h : d.find p = .ok (some .dir))
    (hnul : name.contains '\x00' = false) (hpath : pathLimit < pathSize (p ++ [name])) :
    d.find (p ++ [name]) = .error (.system .nameTooLong) := by
  have hall : (p ++ [name]).any (·.contains '\x00') = false := by
    rw [List.any_append, (find_ok h).1, List.any_cons, hnul]
    rfl
  rw [find, hall, if_neg Bool.false_ne_true, if_pos hpath]

end ImageCache.Disk
