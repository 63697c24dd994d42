import ImageCache.Proofs.Disk.Lookup
import Mathlib.Data.List.Nodup

namespace ImageCache

open Disk

abbrev Entries := List (String × FileId)

/-- Can stand on a shelf as the name of a file. -/
structure Nameable (root : Path) (name : String) : Prop where
  nul : name.contains '\x00' = false
  short : name.utf8ByteSize ≤ nameLimit
  path : pathSize (root ++ [name]) ≤ pathLimit

def place (root : Path) (entry : String × FileId) : Path × Node :=
  (root ++ [entry.1], .file entry.2)

/-- All that stands below a directory are these files, right inside it. -/
structure Shelf (root : Path) (d : Disk) (entries : Entries) : Prop where
  dir : d.find root = .ok (some .dir)
  nodes : d.nodes.filter (isBelow root) = entries.map (place root)
  names : (entries.map (·.1)).Nodup
  ids : (entries.map (·.2)).Nodup
  nameable : ∀ entry ∈ entries, Nameable root entry.1
  stored : ∀ entry ∈ entries, entry.2 < d.files.size

/-- The directory is there and nothing is below it. -/
structure EmptyRoot (root : Path) (d : Disk) : Prop where
  dir : d.find root = .ok (some .dir)
  bare : ∀ node ∈ d.nodes, isBelow root node = false

theorem EmptyRoot.shelf {root : Path} {d : Disk} (h : EmptyRoot root d) : Shelf root d [] where
  dir := h.dir
  nodes := List.filter_eq_nil_iff.mpr fun node hm hb => by
    rw [h.bare node hm] at hb
    cases hb
  names := List.nodup_nil
  ids := List.nodup_nil
  nameable := by simp
  stored := by simp

namespace Entries

def without (name : String) (entries : Entries) : Entries := entries.filter (·.1 ≠ name)

/-- One name is given up for another, which is taken from whatever had it. -/
def renamed (source target : String) (entries : Entries) : Entries :=
  (entries.without target).map fun entry => if entry.1 = source then (target, entry.2) else entry

theorem mem_without {entries : Entries} {name : String} {entry : String × FileId} :
    entry ∈ entries.without name ↔ entry ∈ entries ∧ entry.1 ≠ name := by
  simp [without]

theorem mem_renamed {entries : Entries} {source target : String} {entry : String × FileId} :
    entry ∈ entries.renamed source target ↔
      (entry.1 = target ∧ (source, entry.2) ∈ entries ∧ source ≠ target) ∨
        (entry ∈ entries ∧ entry.1 ≠ source ∧ entry.1 ≠ target) := by
  obtain ⟨name, id⟩ := entry
  simp only [renamed, List.mem_map, mem_without]
  constructor
  · rintro ⟨⟨name', id'⟩, ⟨hm, hne⟩, he⟩
    split at he
    · rename_i hs
      cases he
      subst hs
      exact .inl ⟨rfl, hm, hne⟩
    · rename_i hs
      cases he
      exact .inr ⟨hm, hs, hne⟩
  · rintro (⟨rfl, hm, hne⟩ | ⟨hm, hs, hne⟩)
    · exact ⟨(source, id), ⟨hm, hne⟩, by simp⟩
    · exact ⟨(name, id), ⟨hm, hne⟩, by simp [hs]⟩

end Entries

namespace Shelf

variable {root : Path} {d d' : Disk} {entries : Entries} {name : String} {id : FileId}

theorem unique (h : Shelf root d entries) {other : FileId} (hm : (name, id) ∈ entries)
    (ho : (name, other) ∈ entries) : id = other := by
  have he := List.inj_on_of_nodup_map h.names hm ho rfl
  exact (Prod.mk.inj he).2

theorem named_once (h : Shelf root d entries) {other : String} (hm : (name, id) ∈ entries)
    (ho : (other, id) ∈ entries) : name = other := by
  have he := List.inj_on_of_nodup_map h.ids hm ho rfl
  exact (Prod.mk.inj he).1

/-- A name on the shelf is looked for among the names on it. -/
theorem node?_eq (h : Shelf root d entries) (name : String) :
    d.node? (root ++ [name]) = (entries.map (place root)).lookup (root ++ [name]) := by
  rw [node?, if_neg (by simp), ← h.nodes, lookup_filter]
  exact fun n => isBelow_child root name n

theorem find_some (h : Shelf root d entries) (hm : (name, id) ∈ entries) :
    d.find (root ++ [name]) = .ok (some (.file id)) := by
  have hn := h.nameable _ hm
  have hd : ((entries.map (place root)).map (·.1)).Nodup := by
    have he : (entries.map (place root)).map (·.1) = (entries.map (·.1)).map (root ++ [·]) := by
      simp [place, Function.comp_def]
    rw [he]
    exact h.names.map fun a b hab => by simpa using hab
  rw [find_child h.dir hn.nul hn.short hn.path, h.node?_eq,
    lookup_of_mem hd (List.mem_map_of_mem hm)]

theorem find_none (h : Shelf root d entries) (hn : Nameable root name)
    (hm : ∀ id, (name, id) ∉ entries) : d.find (root ++ [name]) = .ok none := by
  rw [find_child h.dir hn.nul hn.short hn.path, h.node?_eq, List.lookup_eq_none_iff.mpr]
  intro node hp
  obtain ⟨entry, he, rfl⟩ := List.mem_map.mp hp
  rw [bne_iff_ne]
  intro hc
  have hname : name = entry.1 := by simpa [place] using hc
  exact hm entry.2 (hname ▸ he)

/-- Whatever is found under a name is on the shelf. -/
theorem mem_of_find (h : Shelf root d entries)
    (hf : d.find (root ++ [name]) = .ok (some (.file id))) : (name, id) ∈ entries := by
  have hw := (find_ok hf).2
  rw [walk_child name (find_ok h.dir).2] at hw
  split at hw
  · cases hw
  · have hn : (entries.map (place root)).lookup (root ++ [name]) = some (.file id) := by
      rw [← h.node?_eq]
      exact Except.ok.inj hw
    obtain ⟨before, after, hsplit, -⟩ := List.lookup_eq_some_iff.mp hn
    have hm : (root ++ [name], Node.file id) ∈ entries.map (place root) := by
      rw [hsplit]
      exact List.mem_append_right _ List.mem_cons_self
    obtain ⟨entry, he, hp⟩ := List.mem_map.mp hm
    have hentry : entry = (name, id) := by
      obtain ⟨hpath, hnode⟩ := Prod.mk.inj hp
      exact Prod.ext (by simpa using hpath) (Node.file.inj hnode)
    rwa [hentry] at he

/-- What a change below the root makes of a shelf. -/
theorem change {entries' : Entries} (h : Shelf root d entries)
    (outside : d'.nodes.filter (outside root) = d.nodes.filter (outside root))
    (nodes : d'.nodes.filter (isBelow root) = entries'.map (place root))
    (names : (entries'.map (·.1)).Nodup) (ids : (entries'.map (·.2)).Nodup)
    (nameable : ∀ entry ∈ entries', Nameable root entry.1)
    (stored : ∀ entry ∈ entries', entry.2 < d'.files.size) : Shelf root d' entries' :=
  ⟨(find_outside outside).trans h.dir, nodes, names, ids, nameable, stored⟩

/-- Files may change as long as no name does. -/
theorem same_nodes (h : Shelf root d entries) (hn : d'.nodes = d.nodes)
    (hf : d.files.size ≤ d'.files.size) : Shelf root d' entries :=
  h.change (by rw [hn]) (by rw [hn, h.nodes]) h.names h.ids h.nameable
    fun entry he => Nat.lt_of_lt_of_le (h.stored entry he) hf

theorem unlink (h : Shelf root d entries) (name : String) :
    Shelf root (d.unlink (root ++ [name])) (entries.without name) := by
  have hsub : List.Sublist (entries.without name) entries := List.filter_sublist
  refine h.change ?_ ?_ ?_ ?_ ?_ ?_
  · rw [Disk.unlink, List.filter_filter]
    refine List.filter_congr fun node _ => ?_
    by_cases hp : node.1 = root ++ [name]
    · simp [outside, isBelow, hp]
    · simp [hp]
  · rw [Disk.unlink, List.filter_filter]
    simp only [Bool.and_comm (isBelow root _)]
    rw [← List.filter_filter, h.nodes, Entries.without, List.filter_map]
    congr 1
    refine List.filter_congr fun entry _ => ?_
    simp [place]
  · exact h.names.sublist (hsub.map _)
  · exact h.ids.sublist (hsub.map _)
  · exact fun entry he => h.nameable entry (hsub.subset he)
  · exact fun entry he => h.stored entry (hsub.subset he)

theorem not_prefix_of_outside {node : Path × Node} (h : outside root node = true) (name : String) :
    (root ++ [name]).isPrefixOf node.1 = false := by
  rw [Bool.eq_false_iff]
  intro hp
  obtain ⟨rest, hr⟩ := List.isPrefixOf_iff_prefix.mp hp
  rw [outside, Bool.not_eq_true', Bool.eq_false_iff] at h
  refine h (isBelow_iff.mpr ⟨⟨name :: rest, by simpa using hr⟩, ?_⟩)
  intro he
  have hl := congrArg List.length (hr.trans he)
  simp at hl

def moved (source target : Path) (node : Path × Node) : Path × Node :=
  if source.isPrefixOf node.1 then (target ++ node.1.drop source.length, node.2) else node

theorem relocate_nodes (d : Disk) (source target : Path) :
    (d.relocate source target).nodes = d.nodes.map (moved source target) := rfl

/-- What moves from one name on a shelf to another stays below the root. -/
theorem isBelow_moved (source target : String) (node : Path × Node) :
    isBelow root (moved (root ++ [source]) (root ++ [target]) node) = isBelow root node := by
  rw [moved]
  split
  · rename_i hp
    obtain ⟨rest, hr⟩ := List.isPrefixOf_iff_prefix.mp hp
    have hb : isBelow root node = true := by
      rw [isBelow_iff, ← hr]
      simp
    rw [hb, isBelow_iff]
    simp
  · rfl

theorem moved_place (source target : String) (entry : String × FileId) :
    moved (root ++ [source]) (root ++ [target]) (place root entry) =
      place root (if entry.1 = source then (target, entry.2) else entry) := by
  have hp : (root ++ [source]).isPrefixOf (root ++ [entry.1]) = true ↔ entry.1 = source := by
    rw [List.isPrefixOf_iff_prefix, List.prefix_append_right_inj]
    simpa using eq_comm
  rw [moved]
  split
  · rename_i h
    rw [if_pos (hp.mp h)]
    simp [place]
  · rename_i h
    rw [if_neg fun he => h (hp.mpr he)]

theorem relocate (h : Shelf root d entries) (source : String) {target : String}
    (hn : Nameable root target) (free : ∀ id, (target, id) ∉ entries) :
    Shelf root (d.relocate (root ++ [source]) (root ++ [target]))
      (entries.map fun entry => if entry.1 = source then (target, entry.2) else entry) := by
  have hout : outside root ∘ moved (root ++ [source]) (root ++ [target]) = outside root := by
    funext node
    rw [Function.comp, outside, isBelow_moved, outside]
  have hin : isBelow root ∘ moved (root ++ [source]) (root ++ [target]) = isBelow root := by
    funext node
    rw [Function.comp, isBelow_moved]
  refine h.change ?_ ?_ ?_ ?_ ?_ ?_
  · have hid : ∀ node ∈ d.nodes.filter (outside root),
        moved (root ++ [source]) (root ++ [target]) node = id node := by
      intro node hm
      rw [moved, not_prefix_of_outside (List.mem_filter.mp hm).2, if_neg Bool.false_ne_true, id]
    rw [relocate_nodes, List.filter_map, hout, List.map_congr_left hid, List.map_id]
  · rw [relocate_nodes, List.filter_map, hin, h.nodes, List.map_map, List.map_map]
    exact List.map_congr_left fun entry _ => moved_place source target entry
  · have he : ((·.1) ∘ fun entry : String × FileId =>
        if entry.1 = source then (target, entry.2) else entry) =
          (fun name => if name = source then target else name) ∘ (·.1) := by
      funext entry
      simp only [Function.comp]
      split <;> rfl
    rw [List.map_map, he, ← List.map_map]
    -- Nothing has the target's name yet, so no two names become one.
    have taken : ∀ name ∈ entries.map (·.1), name ≠ target := by
      rintro name hm rfl
      obtain ⟨entry, hentry, rfl⟩ := List.mem_map.mp hm
      exact free entry.2 hentry
    refine h.names.map_on fun x hx y hy hxy => ?_
    split at hxy <;> split at hxy
    · rename_i hx' hy'
      rw [hx', hy']
    · exact absurd hxy.symm (taken y hy)
    · exact absurd hxy (taken x hx)
    · exact hxy
  · have he : ((·.2) ∘ fun entry : String × FileId =>
        if entry.1 = source then (target, entry.2) else entry) = (·.2) := by
      funext entry
      simp only [Function.comp]
      split <;> rfl
    rw [List.map_map, he]
    exact h.ids
  · intro entry hm
    obtain ⟨before, hb, rfl⟩ := List.mem_map.mp hm
    split
    · exact hn
    · exact h.nameable before hb
  · intro entry hm
    obtain ⟨before, hb, rfl⟩ := List.mem_map.mp hm
    split
    · exact h.stored before hb
    · exact h.stored before hb

theorem without_free (name : String) (id : FileId) : (name, id) ∉ entries.without name := by
  intro hm
  exact (Entries.mem_without.mp hm).2 rfl

theorem rename_some (h : Shelf root d entries) {source target : String}
    (hm : (source, id) ∈ entries) (hn : Nameable root target) :
    ∃ d', Disk.rename (root ++ [source]) (root ++ [target]) d = (.ok (), d') ∧
      d'.files = d.files ∧ d'.now = d.now ∧ Shelf root d' (entries.renamed source target) := by
  refine ⟨(d.unlink (root ++ [target])).relocate (root ++ [source]) (root ++ [target]), ?_, rfl,
    rfl, (h.unlink target).relocate source hn (without_free target)⟩
  have hs := h.find_some hm
  by_cases ht : ∃ other, (target, other) ∈ entries
  · obtain ⟨other, ho⟩ := ht
    simp only [Disk.rename, hs, h.find_some ho, replaceable]
  · have hf := h.find_none hn fun other ho => ht ⟨other, ho⟩
    simp only [Disk.rename, hs, hf, replaceable]

theorem rename_none (h : Shelf root d entries) {source : String} (hn : Nameable root source)
    (hm : ∀ id, (source, id) ∉ entries) (target : Path) :
    Disk.rename (root ++ [source]) target d = (.error (.system .noEntry), d) := by
  simp only [Disk.rename, h.find_none hn hm]

theorem remove_some (h : Shelf root d entries) (hm : (name, id) ∈ entries) :
    removeFile (root ++ [name]) d = (.ok (), d.unlink (root ++ [name])) := by
  simp only [removeFile, h.find_some hm]

theorem remove_none (h : Shelf root d entries) (hn : Nameable root name)
    (hm : ∀ id, (name, id) ∉ entries) :
    removeFile (root ++ [name]) d = (.error (.system .noEntry), d) := by
  simp only [removeFile, h.find_none hn hm]

theorem create_some (h : Shelf root d entries) (hm : (name, id) ∈ entries) :
    createFile (root ++ [name]) d = (.error (.system .exists), d) := by
  simp only [createFile, h.find_some hm]

/-- A new file is empty and is the only one that the disk has more. -/
theorem create_none (h : Shelf root d entries) (hn : Nameable root name)
    (hm : ∀ id, (name, id) ∉ entries) :
    ∃ d', createFile (root ++ [name]) d = (.ok d.files.size, d') ∧
      d'.files = d.files.push ⟨.empty, d.now + 1⟩ ∧ d'.now = d.now + 1 ∧
      Shelf root d' (entries ++ [(name, d.files.size)]) := by
  have hfree : name ∉ entries.map (·.1) := by
    intro hc
    obtain ⟨entry, he, rfl⟩ := List.mem_map.mp hc
    exact hm entry.2 he
  have hnew : d.files.size ∉ entries.map (·.2) := by
    intro hc
    obtain ⟨entry, he, hid⟩ := List.mem_map.mp hc
    exact Nat.lt_irrefl _ (hid ▸ h.stored entry he)
  have he : createFile (root ++ [name]) d = (.ok d.files.size,
      ⟨d.nodes ++ [(root ++ [name], .file d.files.size)], d.files.push ⟨.empty, d.now + 1⟩,
        d.now + 1⟩) := by
    simp only [createFile, h.find_none hn hm, stamp, link]
  refine ⟨_, he, rfl, rfl, h.change ?_ ?_ ?_ ?_ ?_ ?_⟩
  · simp [outside]
  · simp [h.nodes, place]
  · rw [List.map_append]
    exact List.nodup_append.mpr ⟨h.names, List.nodup_singleton _, by
      rintro a ha b hb rfl
      simp at hb
      exact hfree (hb ▸ ha)⟩
  · rw [List.map_append]
    exact List.nodup_append.mpr ⟨h.ids, List.nodup_singleton _, by
      rintro a ha b hb rfl
      simp at hb
      exact hnew (hb ▸ ha)⟩
  · intro entry he
    rcases List.mem_append.mp he with he | he
    · exact h.nameable entry he
    · rw [List.mem_singleton.mp he]
      exact hn
  · intro entry he
    rw [Array.size_push]
    rcases List.mem_append.mp he with he | he
    · exact Nat.lt_succ_of_lt (h.stored entry he)
    · rw [List.mem_singleton.mp he]
      exact Nat.lt_succ_self _

end Shelf

end ImageCache
