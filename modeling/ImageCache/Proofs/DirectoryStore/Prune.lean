import ImageCache.Proofs.DirectoryStore.Operations
import ImageCache.Proofs.DirectoryStore.Pruning

namespace ImageCache

open Disk

/-- Names went from a shelf, and nothing else changed. -/
structure Loses (root : Path) (d d' : Disk) (entries : Entries) (gone : List String) : Prop where
  files : d'.files = d.files
  now : d'.now = d.now
  nodes : d'.nodes.Sublist d.nodes
  shelf : Shelf root d' (entries.filter (·.1 ∉ gone))

namespace DirectoryStore

def info (root : Path) (d : Disk) (entry : String × FileId) : FileInfo :=
  ⟨root ++ [entry.1], (d.file entry.2).bytes.size, (d.file entry.2).modified⟩

def isStagedEntry (root : Path) (entry : String × FileId) : Bool :=
  EntryPath.isStaged (root ++ [entry.1])

end DirectoryStore

open DirectoryStore

namespace Shelf

variable {root : Path} {d : Disk} {entries : Entries}

theorem nodesBelow_eq (h : Shelf root d entries) : d.nodesBelow root = entries.map (place root) :=
  h.nodes

theorem tree (h : Shelf root d entries) : d.Tree root where
  rooted q hq hn := by
    obtain ⟨-, hacc, hdir⟩ := find_ok_iff.mp h.dir
    by_cases hroot : q = root
    · rwa [hroot]
    · have hnil : q ≠ [] := by
        rintro rfl
        exact hroot (List.prefix_nil.mp hq).symm
      obtain ⟨n, hn⟩ := Option.ne_none_iff_exists'.mp hn
      have hm := mem_nodesBelow.mpr ⟨mem_of_node? hnil hn, hq, hroot⟩
      rw [h.nodesBelow_eq] at hm
      obtain ⟨entry, -, hplace⟩ := List.mem_map.mp hm
      obtain rfl : root ++ [entry.1] = q := congrArg Prod.fst hplace
      rw [accessible_iff, List.dropLast_concat]
      exact fun x hx => hacc.through hdir hx
  single := by
    have hpaths : (entries.map (place root)).map (·.1) = (entries.map (·.1)).map (root ++ [·]) := by
      simp [place]
    rw [h.nodesBelow_eq, hpaths]
    exact h.names.map fun a b hab => by simpa using hab

theorem fits (h : Shelf root d entries) : ∀ node ∈ d.nodesBelow root, Fits node.1 := by
  intro node hm
  rw [h.nodesBelow_eq] at hm
  obtain ⟨entry, hentry, rfl⟩ := List.mem_map.mp hm
  obtain ⟨hroot, -, -⟩ := find_ok_iff.mp h.dir
  have hn := h.nameable entry hentry
  refine ⟨?_, hn.path, ?_⟩
  · simp only [place, List.any_append, hroot.nul, List.any_cons, hn.nul, List.any_nil, Bool.or_self]
  · intro name hname
    rcases List.mem_append.mp hname with hname | hname
    · exact hroot.names name hname
    · rw [List.mem_singleton.mp hname]
      exact hn.short

theorem filesBelow_eq (h : Shelf root d entries) :
    Census.filesBelow d root = entries.map (info root d) := by
  have hfile : (Census.fileAt d ∘ place root) = fun entry => some (info root d entry) := rfl
  rw [Census.filesBelow, h.nodesBelow_eq, List.filterMap_map, hfile, List.filterMap_eq_map']

/-- What is left when names go is a shelf. -/
theorem without (h : Shelf root d entries) (names : List String) :
    Shelf root (d.without (names.map (root ++ [·]))) (entries.filter (·.1 ∉ names)) := by
  have hsub : (entries.filter (·.1 ∉ names)).Sublist entries := List.filter_sublist
  have hmem : ∀ name, root ++ [name] ∈ names.map (root ++ [·]) ↔ name ∈ names := by simp
  refine h.change ?_ ?_ (h.names.sublist (hsub.map _)) (h.ids.sublist (hsub.map _))
    (fun entry he => h.nameable entry (hsub.subset he))
    fun entry he => h.stored entry (hsub.subset he)
  · rw [Disk.without, List.filter_filter]
    refine List.filter_congr fun node _ => ?_
    cases hout : outside root node with
    | false => rfl
    | true =>
      refine decide_eq_true fun hm => ?_
      obtain ⟨name, -, hpath⟩ := List.mem_map.mp hm
      rw [outside, isBelow_iff.mpr] at hout
      · cases hout
      · rw [← hpath]
        simp
  · change (d.without _).nodesBelow root = _
    rw [nodesBelow_without, h.nodesBelow_eq, List.filter_map]
    congr 1
    refine List.filter_congr fun entry _ => ?_
    simp only [Function.comp, place, hmem]

end Shelf

namespace DirectoryStore

variable {s : DirectoryStore} {d : Disk} {entries : Entries}

/-- The size of a shelf is that of its files without the staged ones. -/
theorem size_shelf (h : Shelf s.root d entries) : s.size d =
    .ok (Census.total ((entries.filter (!isStagedEntry s.root ·)).map (info s.root d))) := by
  have hdirs : ∀ p ∈ s.root :: d.subdirs s.root, d.find p = .ok (some .dir) := by
    intro p hp
    rcases List.mem_cons.mp hp with rfl | hp
    · exact h.dir
    · have hm := mem_subdirs.mp hp
      rw [h.nodesBelow_eq] at hm
      obtain ⟨entry, -, hplace⟩ := List.mem_map.mp hm
      cases hplace
  obtain ⟨c, hc⟩ := (Census.take_ok_iff h.tree).mpr hdirs
  have hcommitted := (Census.take_holds h.tree hc).committed
  rw [h.filesBelow_eq, List.filter_map] at hcommitted
  rw [size, hc]
  exact congrArg Except.ok (Census.total_perm hcommitted)

/-- Pruning succeeds, takes names off the shelf and leaves the rest as it is. A staged file goes
just if it is stale. -/
theorem prune_shelf (h : Shelf s.root d entries) :
    ∃ n d' gone, s.prune d = (.ok n, d') ∧ Loses s.root d d' entries gone ∧
      ∀ entry ∈ entries, isStagedEntry s.root entry = true →
        (entry.1 ∈ gone ↔ s.isStale d.now (info s.root d entry) = true) := by
  obtain ⟨n, d', hsucceeds⟩ := prune_succeeds h.tree h.dir h.fits
  rcases prune_cases h.tree with ⟨stale, surplus, kept, hpruned, hr⟩ | ⟨-, e, d'', hr⟩
  swap
  · rw [hr] at hsucceeds
    cases hsucceeds
  have hinfo : ∀ f ∈ stale ++ surplus, ∃ entry ∈ entries, info s.root d entry = f := by
    intro f hf
    have hm : f ∈ Census.filesBelow d s.root := by
      rcases List.mem_append.mp hf with hf | hf
      · exact (hpruned.mem_stale.mp hf).1
      · exact (hpruned.mem_committed.mp (List.mem_append_left kept hf)).1
    rw [h.filesBelow_eq] at hm
    exact List.mem_map.mp hm
  obtain ⟨gone, hgone⟩ : ∃ gone : List String,
      paths (stale ++ surplus) = gone.map (s.root ++ [·]) := by
    refine ⟨(stale ++ surplus).map fun f => f.path.getLast?.getD "", ?_⟩
    rw [paths, List.map_map]
    refine List.map_congr_left fun f hf => ?_
    obtain ⟨entry, -, rfl⟩ := hinfo f hf
    simp [info]
  refine ⟨_, _, gone, hr, ⟨rfl, rfl, List.filter_sublist, hgone ▸ h.without gone⟩, ?_⟩
  intro entry hentry hstaged
  have hname : entry.1 ∈ gone ↔ info s.root d entry ∈ stale ++ surplus := by
    have hpath : entry.1 ∈ gone ↔ s.root ++ [entry.1] ∈ paths (stale ++ surplus) := by
      rw [hgone]
      simp
    rw [hpath]
    refine ⟨fun hm => ?_, fun hm => mem_paths hm⟩
    obtain ⟨f, hf, hsame⟩ := List.mem_map.mp hm
    obtain ⟨other, ho, rfl⟩ := hinfo f hf
    have hnames : other.1 = entry.1 := by simpa [info] using hsame
    rwa [← List.inj_on_of_nodup_map h.names ho hentry hnames]
  rw [hname, List.mem_append]
  constructor
  · intro hm
    rcases hm with hm | hm
    · exact (hpruned.mem_stale.mp hm).2.2
    · -- By age only committed entries go, and those have other names.
      have hcommitted := (hpruned.mem_committed.mp (List.mem_append_left kept hm)).2
      rw [isStagedEntry] at hstaged
      rw [info, hstaged] at hcommitted
      cases hcommitted
  · intro hs
    refine .inl (hpruned.mem_stale.mpr ⟨?_, hstaged, hs⟩)
    rw [h.filesBelow_eq]
    exact List.mem_map_of_mem hentry

end DirectoryStore

end ImageCache
