import ImageCache.Proofs.Disk.Nodes
import Mathlib.Data.List.Infix
import Mathlib.Data.List.Nodup
import Mathlib.Data.List.Perm.Basic

namespace ImageCache.Disk

def nodesBelow (d : Disk) (p : Path) : List (Path × Node) := d.nodes.filter (isBelow p)

def dirAt : Path × Node → Option Path
  | (p, .dir) => some p
  | (_, .file _) => none

def dirsInside (d : Disk) (p : Path) : List Path := (d.inside p).filterMap dirAt

def subdirs (d : Disk) (p : Path) : List Path := (d.nodesBelow p).filterMap dirAt

/-- What is at a directory or below it is a tree: whatever stands there stands in a directory, and
no path has two nodes. -/
structure Tree (root : Path) (d : Disk) : Prop where
  rooted : d.Rooted root
  single : ((d.nodesBelow root).map (·.1)).Nodup

variable {d : Disk} {root p q : Path} {node : Path × Node} {n : Node}

theorem mem_nodesBelow : node ∈ d.nodesBelow p ↔ node ∈ d.nodes ∧ p <+: node.1 ∧ node.1 ≠ p := by
  rw [nodesBelow, List.mem_filter, isBelow_iff]

theorem mem_inside : node ∈ d.inside p ↔ node ∈ d.nodes ∧ node.1 ≠ [] ∧ node.1.dropLast = p := by
  simp [inside]

@[simp]
theorem dirAt_eq_some : dirAt node = some p ↔ node = (p, .dir) := by
  obtain ⟨q, n⟩ := node
  cases n <;> simp [dirAt]

theorem mem_dirsInside : q ∈ d.dirsInside p ↔ (q, .dir) ∈ d.inside p := by
  simp [dirsInside]

theorem mem_subdirs : q ∈ d.subdirs p ↔ (q, .dir) ∈ d.nodesBelow p := by
  simp [subdirs]

/-- What is right inside a directory is below it. -/
theorem prefix_of_inside (hne : q ≠ []) (h : q.dropLast = p) : p <+: q ∧ q ≠ p := by
  subst h
  refine ⟨List.dropLast_prefix q, fun he => ?_⟩
  have hlen := congrArg List.length he
  have hpos := List.length_pos_iff.mpr hne
  rw [List.length_dropLast] at hlen
  omega

theorem inside_sublist (d : Disk) (p : Path) : (d.inside p).Sublist (d.nodesBelow p) := by
  refine List.monotone_filter_right d.nodes fun node hm => ?_
  obtain ⟨hne, hp⟩ := of_decide_eq_true hm
  exact isBelow_iff.mpr (prefix_of_inside hne hp)

/-- What is below a directory is below those above it. -/
theorem nodesBelow_sublist (d : Disk) (h : p <+: q) :
    (d.nodesBelow q).Sublist (d.nodesBelow p) := by
  refine List.monotone_filter_right d.nodes fun node hm => ?_
  obtain ⟨hq, hne⟩ := isBelow_iff.mp hm
  refine isBelow_iff.mpr ⟨h.trans hq, ?_⟩
  rintro rfl
  exact hne (h.eq_of_length_le hq.length_le)

namespace Tree

/-- Any part of a tree is a tree. -/
theorem part (h : d.Tree root) (hp : root <+: p) : d.Tree p where
  rooted q hq hn := h.rooted q (hp.trans hq) hn
  single := h.single.sublist ((nodesBelow_sublist d hp).map _)

theorem node? (h : d.Tree root) (hm : (q, n) ∈ d.nodesBelow root) : d.node? q = some n := by
  obtain ⟨-, hq, hne⟩ := mem_nodesBelow.mp hm
  have hnil : q ≠ [] := by
    rintro rfl
    exact hne (List.prefix_nil.mp hq).symm
  have hkeep : ∀ n, isBelow root (q, n) = true := fun n => isBelow_iff.mpr ⟨hq, hne⟩
  rw [Disk.node?, if_neg hnil, ← lookup_filter d.nodes hkeep]
  exact lookup_of_mem h.single hm

theorem accessible (h : d.Tree root) (hm : node ∈ d.nodesBelow root) : d.Accessible node.1 := by
  obtain ⟨hnode, hroot, -⟩ := mem_nodesBelow.mp hm
  exact h.rooted node.1 hroot (node?_ne_none hnode)

end Tree

/-- What is found at a path is among the nodes. -/
theorem mem_of_node? (hne : p ≠ []) (h : d.node? p = some n) : (p, n) ∈ d.nodes := by
  rw [node?, if_neg hne] at h
  obtain ⟨before, after, hsplit, -⟩ := List.lookup_eq_some_iff.mp h
  rw [hsplit]
  exact List.mem_append_right before List.mem_cons_self

/-- A disk whose nodes all stand in directories, each at a path of its own, is a tree everywhere. -/
theorem Tree.of_nodes
    (way : ∀ node ∈ d.nodes, ∀ q ∈ node.1.dropLast.inits, d.node? q = some .dir)
    (single : (d.nodes.map (·.1)).Nodup) (root : Path) : d.Tree root where
  rooted q _ hq := by
    by_cases hnil : q = []
    · rw [hnil]
      exact accessible_top rfl d
    · obtain ⟨n, hn⟩ := Option.ne_none_iff_exists'.mp hq
      refine accessible_iff.mpr fun x hx => ?_
      exact way _ (mem_of_node? hnil hn) x ((List.mem_inits _ _).mpr hx)
  single := single.sublist (List.filter_sublist.map _)

/-- Below a directory there is one step down, and then the rest. -/
theorem nodesBelow_cases (h : d.Tree p) : node ∈ d.nodesBelow p ↔
    node ∈ d.inside p ∨ ∃ q ∈ d.dirsInside p, node ∈ d.nodesBelow q := by
  constructor
  · intro hm
    obtain ⟨hnode, ⟨rest, hrest⟩, hne⟩ := mem_nodesBelow.mp hm
    obtain ⟨name, more, rfl⟩ : ∃ name more, rest = name :: more := by
      refine List.exists_cons_of_ne_nil fun hnil => ?_
      rw [hnil, List.append_nil] at hrest
      exact hne hrest.symm
    by_cases hmore : more = []
    · subst hmore
      left
      rw [mem_inside, ← hrest]
      exact ⟨hnode, by simp, List.dropLast_concat⟩
    · have hstep : p ++ [name] <+: node.1 := ⟨more, by rw [← hrest]; simp⟩
      have hshort : p ++ [name] ≠ node.1 := by
        rw [← hrest]
        simpa using Ne.symm hmore
      have hdir := h.accessible hm _ hstep hshort
      refine .inr ⟨p ++ [name], ?_, mem_nodesBelow.mpr ⟨hnode, hstep, hshort.symm⟩⟩
      rw [mem_dirsInside, mem_inside]
      exact ⟨mem_of_node? (by simp) hdir, by simp, List.dropLast_concat⟩
  · intro hm
    rcases hm with hm | ⟨q, hq, hm⟩
    · exact (inside_sublist d p).subset hm
    · obtain ⟨-, hne, hp⟩ := mem_inside.mp (mem_dirsInside.mp hq)
      exact (nodesBelow_sublist d (prefix_of_inside hne hp).1).subset hm

/-- Nothing is below two directories of one length. -/
theorem nodesBelow_disjoint (hlen : p.length = q.length) (hne : p ≠ q) :
    (d.nodesBelow p).Disjoint (d.nodesBelow q) := by
  intro node hp hq
  have hpq := List.prefix_of_prefix_length_le (mem_nodesBelow.mp hp).2.1 (mem_nodesBelow.mp hq).2.1
    (Nat.le_of_eq hlen)
  exact hne (hpq.eq_of_length hlen)

/-- All that is below a directory: what is inside it, and what is below the directories inside. -/
theorem nodesBelow_perm (h : d.Tree p) :
    (d.nodesBelow p).Perm (d.inside p ++ (d.dirsInside p).flatMap d.nodesBelow) := by
  have hnodup : (d.nodesBelow p).Nodup := h.single.of_map
  have hinside : (d.inside p).Nodup := hnodup.sublist (inside_sublist d p)
  have hdepth : ∀ q ∈ d.dirsInside p, q.dropLast = p ∧ q ≠ [] := by
    intro q hq
    obtain ⟨-, hne, hp⟩ := mem_inside.mp (mem_dirsInside.mp hq)
    exact ⟨hp, hne⟩
  have hlength : ∀ q, q.dropLast = p → q ≠ [] → q.length = p.length + 1 := by
    intro q hp hne
    have hpos := List.length_pos_iff.mpr hne
    rw [← hp, List.length_dropLast]
    omega
  refine (List.perm_ext_iff_of_nodup hnodup ?_).mpr fun node => ?_
  · rw [List.nodup_append]
    refine ⟨hinside, ?_, ?_⟩
    · rw [List.nodup_flatMap]
      constructor
      · intro q hq
        have hpq := (prefix_of_inside (hdepth q hq).2 (hdepth q hq).1).1
        exact hnodup.sublist (nodesBelow_sublist d hpq)
      · have hdirs : (d.dirsInside p).Nodup := hinside.filterMap fun a b q ha hb => by
          rw [Option.mem_def, dirAt_eq_some] at ha hb
          rw [ha, hb]
        refine hdirs.pairwise_of_forall_ne fun a ha b hb hne => nodesBelow_disjoint ?_ hne
        rw [hlength a (hdepth a ha).1 (hdepth a ha).2, hlength b (hdepth b hb).1 (hdepth b hb).2]
    · intro a ha b hb
      obtain ⟨-, hne, hp⟩ := mem_inside.mp ha
      obtain ⟨q, hq, hb⟩ := List.mem_flatMap.mp hb
      obtain ⟨-, hqb, hbq⟩ := mem_nodesBelow.mp hb
      -- What is inside has the length of the directories inside, and what is below them is longer.
      rintro rfl
      refine hbq (hqb.eq_of_length ?_).symm
      rw [hlength a.1 hp hne, hlength q (hdepth q hq).1 (hdepth q hq).2]
  · rw [nodesBelow_cases h, List.mem_append, List.mem_flatMap]

/-- The directories below one: each that is inside it, with those below that. -/
theorem subdirs_perm (h : d.Tree p) :
    (d.subdirs p).Perm ((d.dirsInside p).flatMap fun q => q :: d.subdirs q) := by
  have hperm := (nodesBelow_perm h).filterMap dirAt
  rw [List.filterMap_append, List.filterMap_flatMap] at hperm
  have hjoin := List.map_append_flatMap_perm (d.dirsInside p) id d.subdirs
  rw [List.map_id] at hjoin
  exact hperm.trans hjoin

section Taking

variable {paths more : List Path}

def without (d : Disk) (paths : List Path) : Disk :=
  { d with nodes := d.nodes.filter (·.1 ∉ paths) }

def HasFiles (d : Disk) (paths : List Path) : Prop :=
  ∀ p ∈ paths, ∃ id, d.node? p = some (.file id)

@[simp]
theorem without_nil (d : Disk) : d.without [] = d := by
  simp [without]

theorem unlink_eq (d : Disk) (p : Path) : d.unlink p = d.without [p] := by
  simp [unlink, without]

theorem without_without (d : Disk) (paths more : List Path) :
    (d.without paths).without more = d.without (paths ++ more) := by
  simp only [without, List.filter_filter, List.mem_append, not_or, Bool.decide_and]
  simp only [Bool.and_comm]

theorem nodesBelow_without (d : Disk) (paths : List Path) (p : Path) :
    (d.without paths).nodesBelow p = (d.nodesBelow p).filter (·.1 ∉ paths) :=
  List.filter_comm _ _ _

theorem HasFiles.node? (h : d.HasFiles paths) (q : Path) :
    (d.without paths).node? q = if q ∈ paths then none else d.node? q := by
  by_cases hq : q ∈ paths
  · obtain ⟨id, hfile⟩ := h q hq
    have hnil : q ≠ [] := by
      rintro rfl
      cases hfile
    rw [if_pos hq, Disk.node?, if_neg hnil, List.lookup_eq_none_iff]
    intro node hm
    rw [bne_iff_ne]
    rintro rfl
    exact of_decide_eq_true (List.mem_filter.mp hm).2 hq
  · rw [if_neg hq, Disk.node?, Disk.node?]
    split
    · rfl
    · exact lookup_filter d.nodes fun _ => decide_eq_true hq

theorem HasFiles.dir (h : d.HasFiles paths) (hq : d.node? q = some .dir) :
    (d.without paths).node? q = some .dir := by
  rw [h.node?, if_neg, hq]
  intro hm
  obtain ⟨id, hfile⟩ := h q hm
  rw [hq] at hfile
  cases hfile

theorem HasFiles.accessible (h : d.HasFiles paths) (hq : d.Accessible q) :
    (d.without paths).Accessible q := fun way hway hne => h.dir (hq way hway hne)

/-- A directory is found as before. -/
theorem HasFiles.find_dir (h : d.HasFiles paths) (hq : d.find q = .ok (some .dir)) :
    (d.without paths).find q = .ok (some .dir) := by
  obtain ⟨fits, hacc, hnode⟩ := find_ok_iff.mp hq
  exact find_ok_iff.mpr ⟨fits, h.accessible hacc, h.dir hnode⟩

theorem Tree.without (h : d.Tree root) (files : d.HasFiles paths) :
    (d.without paths).Tree root where
  rooted q hq hn := by
    rw [files.node?] at hn
    refine files.accessible (h.rooted q hq fun hnone => ?_)
    rw [hnone, ite_self] at hn
    exact hn rfl
  single := by
    rw [nodesBelow_without]
    exact h.single.sublist (List.filter_sublist.map _)

/-- Directories stay when files go. -/
theorem subdirs_without (d : Disk) (paths : List Path) (p : Path) :
    (d.without paths).subdirs p ⊆ d.subdirs p := by
  rw [subdirs, nodesBelow_without]
  exact (List.filter_sublist.filterMap dirAt).subset

end Taking

end ImageCache.Disk
