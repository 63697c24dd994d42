import ImageCache.Proofs.DirectoryStore.AnyKey
import ImageCache.Proofs.DirectoryStore.Census

namespace ImageCache

open Disk EntryPath

namespace Disk

variable {d : Disk} {p : Path}

/-- Where directories lead to a path it is found, unless it does not fit. -/
theorem find_accessible (h : d.Accessible p) :
    d.find p = .ok (d.node? p) ∨ ∃ e, d.find p = .error e ∧ e.kind ≠ .notFound := by
  cases hf : d.find p with
  | ok found =>
    obtain ⟨-, -, rfl⟩ := find_ok_iff.mp hf
    exact .inl rfl
  | error e =>
    refine .inr ⟨e, rfl, ?_⟩
    cases find_error hf with
    | nul => nofun
    | size => nofun
    | long => nofun
    | file => nofun
    | missing parts more way short hnone =>
      have hdir := h _ ⟨_, parts.symm⟩ fun he => more (by simpa [he] using parts)
      rw [hdir] at hnone
      cases hnone

/-- Some files are gone, and whatever else stood stands as before. -/
def Thinned (d d' : Disk) : Prop :=
  ∀ q, d'.node? q = d.node? q ∨ d'.node? q = none ∧ ∃ id, d.node? q = some (.file id)

theorem Thinned.refl (d : Disk) : d.Thinned d := fun _ => .inl rfl

theorem Thinned.trans {d' d'' : Disk} (h : d.Thinned d') (h' : d'.Thinned d'') : d.Thinned d'' := by
  intro q
  rcases h' q with same | ⟨gone, id, hfile⟩
  · rw [same]
    exact h q
  · rcases h q with same | ⟨hnone, -⟩
    · exact .inr ⟨gone, id, same ▸ hfile⟩
    · rw [hnone] at hfile
      cases hfile

theorem unlink_thins (hp : d.node? p ≠ some .dir) : d.Thinned (d.unlink p) := by
  have hnil : p ≠ [] := by
    rintro rfl
    exact hp rfl
  intro q
  rw [node?_unlink d hnil]
  by_cases hq : q = p
  · subst hq
    rw [if_pos rfl]
    cases hn : d.node? q with
    | none => exact .inl rfl
    | some n =>
      cases n with
      | dir => exact absurd hn hp
      | file id => exact .inr ⟨rfl, id, rfl⟩
  · rw [if_neg hq]
    exact .inl rfl

theorem removeFile_thins (p : Path) (d : Disk) : d.Thinned (removeFile p d).2 := by
  cases hf : d.find p with
  | error e =>
    simp only [removeFile, hf]
    exact .refl d
  | ok found =>
    have hnode := (find_ok_iff.mp hf).2.2
    cases found with
    | none =>
      simp only [removeFile, hf]
      exact .refl d
    | some n =>
      cases n with
      | dir =>
        simp only [removeFile, hf]
        exact .refl d
      | file id =>
        rw [removeFile_file hf]
        exact unlink_thins (by simp [hnode])

end Disk

namespace DirectoryStore

variable {s : DirectoryStore} {d d' : Disk} {root : Path} {now : Int} {n removed : Nat}
  {files more : List FileInfo} {f : FileInfo}

def paths (files : List FileInfo) : List Path := files.map (·.path)

@[simp]
theorem paths_nil : paths [] = [] := rfl

@[simp]
theorem paths_cons (f : FileInfo) (files : List FileInfo) :
    paths (f :: files) = f.path :: paths files := rfl

@[simp]
theorem paths_append (files more : List FileInfo) :
    paths (files ++ more) = paths files ++ paths more := List.map_append

theorem mem_paths (h : f ∈ files) : f.path ∈ paths files := List.mem_map_of_mem h

/-- Each of these files stands in a directory, and no two have one path. -/
structure Standing (d : Disk) (files : List FileInfo) : Prop where
  single : (paths files).Nodup
  there : ∀ f ∈ files, ∃ id, d.node? f.path = some (.file id)
  way : ∀ f ∈ files, d.Accessible f.path

namespace Standing

theorem hasFiles (h : Standing d files) : d.HasFiles (paths files) := by
  intro p hp
  obtain ⟨f, hf, rfl⟩ := List.mem_map.mp hp
  exact h.there f hf

theorem perm (h : Standing d files) (hp : files.Perm more) : Standing d more :=
  ⟨(hp.map _).nodup_iff.mp h.single, fun f hf => h.there f (hp.mem_iff.mpr hf),
    fun f hf => h.way f (hp.mem_iff.mpr hf)⟩

theorem sublist (h : Standing d files) (hs : more.Sublist files) : Standing d more :=
  ⟨h.single.sublist (hs.map _), fun f hf => h.there f (hs.subset hf),
    fun f hf => h.way f (hs.subset hf)⟩

/-- A file is told by its path. -/
theorem eq_of_path (h : Standing d files) {g : FileInfo} (hf : f ∈ files) (hg : g ∈ files)
    (he : f.path = g.path) : f = g := List.inj_on_of_nodup_map h.single hf hg he

/-- Files that stay stand as before when others go. -/
theorem without (h : Standing d (files ++ more)) : Standing (d.without (paths files)) more := by
  have hmore := h.sublist (List.sublist_append_right files more)
  have hfiles := (h.sublist (List.sublist_append_left files more)).hasFiles
  refine ⟨hmore.single, fun f hf => ?_, fun f hf => hfiles.accessible (hmore.way f hf)⟩
  have hsingle := h.single
  rw [paths_append, List.nodup_append] at hsingle
  have hother : f.path ∉ paths files := fun hc => hsingle.2.2 _ hc _ (mem_paths hf) rfl
  rw [hfiles.node?, if_neg hother]
  exact hmore.there f hf

end Standing

/-- The files of a tree stand in it. -/
theorem tree_standing (tree : d.Tree root) : Standing d (Census.filesBelow d root) := by
  have hstand : ∀ f ∈ Census.filesBelow d root,
      ∃ id, (f.path, .file id) ∈ d.nodesBelow root := by
    intro f hf
    obtain ⟨id, hm, -⟩ := Census.mem_filesBelow.mp hf
    exact ⟨id, hm⟩
  constructor
  · have hsingle := tree.single
    rw [List.Nodup, List.pairwise_map] at hsingle
    rw [paths, List.Nodup, List.pairwise_map, Census.filesBelow, List.pairwise_filterMap]
    refine hsingle.imp fun {a b} hne f hf g hg => ?_
    rwa [Census.fileAt_path hf, Census.fileAt_path hg]
  · intro f hf
    obtain ⟨id, hm⟩ := hstand f hf
    exact ⟨id, tree.node? hm⟩
  · intro f hf
    obtain ⟨id, hm⟩ := hstand f hf
    exact tree.accessible hm

section Removing

/-- What happens when a file that stands is removed: it goes, or its path does not fit. -/
theorem removeIfPresent_cases {p : Path} {id : FileId} (there : d.node? p = some (.file id))
    (way : d.Accessible p) : removeIfPresent p d = (.ok (), d.without [p]) ∨
      ¬ Fits p ∧ ∃ e, removeIfPresent p d = (.error e, d) := by
  rcases find_accessible way with hf | ⟨e, hf, hk⟩
  · left
    rw [there] at hf
    simp only [removeIfPresent, bind, StateT.bind, removeFile_file hf, unlink_eq]
    rfl
  · right
    refine ⟨fun fits => ?_, e, ?_⟩
    · rw [find_ok_iff.mpr ⟨fits, way, rfl⟩] at hf
      cases hf
    · have hr : removeFile p d = (.error e, d) := by simp only [removeFile, hf]
      simp only [removeIfPresent, bind, StateT.bind, hr]
      rw [if_neg hk]
      rfl

theorem removeIfPresent_head (h : Standing d (f :: files)) :
    removeIfPresent f.path d = (.ok (), d.without [f.path]) ∨
      ¬ Fits f.path ∧ ∃ e, removeIfPresent f.path d = (.error e, d) := by
  obtain ⟨id, there⟩ := h.there f List.mem_cons_self
  exact removeIfPresent_cases there (h.way f List.mem_cons_self)

theorem Standing.tail (h : Standing d (f :: files)) : Standing (d.without [f.path]) files := by
  rw [← List.singleton_append] at h
  exact h.without

/-- The stale files go, or the path of one of them does not fit. -/
theorem removeStale_cases (s : DirectoryStore) (now : Int) (h : Standing d files) (removed : Nat) :
    s.removeStale now files removed d =
        (.ok (removed + (files.filter (s.isStale now)).length),
          d.without (paths (files.filter (s.isStale now)))) ∨
      (∃ f ∈ files, ¬ Fits f.path) ∧
        ∃ e d', s.removeStale now files removed d = (.error e, d') := by
  induction files generalizing d removed with
  | nil =>
    rw [removeStale, List.filter_nil, paths_nil, without_nil]
    exact .inl rfl
  | cons f rest ih =>
    rw [removeStale]
    cases hs : s.isStale now f with
    | false =>
      rw [List.filter_cons_of_neg (by simp [hs]), if_neg Bool.false_ne_true]
      rcases ih (h.sublist (List.sublist_cons_self f rest)) removed with hr | ⟨⟨g, hg, long⟩, hr⟩
      · exact .inl hr
      · exact .inr ⟨⟨g, List.mem_cons_of_mem f hg, long⟩, hr⟩
    | true =>
      rw [List.filter_cons_of_pos hs, if_pos rfl]
      simp only [bind, StateT.bind]
      rcases removeIfPresent_head h with hremove | ⟨long, e, hremove⟩
      · rw [hremove]
        rcases ih h.tail (removed + 1) with hr | ⟨⟨g, hg, long⟩, hr⟩
        · left
          dsimp only
          rw [hr, without_without, List.length_cons, paths_cons, List.singleton_append,
            Nat.add_right_comm, Nat.add_assoc]
        · exact .inr ⟨⟨g, List.mem_cons_of_mem f hg, long⟩, hr⟩
      · rw [hremove]
        exact .inr ⟨⟨f, List.mem_cons_self, long⟩, e, d, rfl⟩

/-- Those that are kept keep to the limit, and not before the last of the others is gone. -/
structure Surplus (limit : Nat) (gone kept : List FileInfo) : Prop where
  within : Census.total kept ≤ limit
  needed : ∀ before f after, gone = before ++ f :: after →
    limit < Census.total (f :: after ++ kept)

theorem Surplus.none {limit : Nat} (h : Census.total files ≤ limit) : Surplus limit [] files :=
  ⟨h, fun before f after he => by simp at he⟩

theorem Surplus.cons {limit : Nat} {gone kept : List FileInfo} (h : Surplus limit gone kept)
    (hover : limit < Census.total (f :: gone ++ kept)) : Surplus limit (f :: gone) kept := by
  refine ⟨h.within, fun before g after he => ?_⟩
  cases before with
  | nil =>
    obtain ⟨rfl, rfl⟩ := List.cons.inj he
    exact hover
  | cons first before => exact h.needed before g after (List.cons.inj he).2

/-- Just the files that are needed go, from the front, or the path of one of them does not fit. -/
theorem removeOldest_cases (h : Standing d files) (limit removed : Nat) :
    (∃ gone kept, files = gone ++ kept ∧ Surplus limit gone kept ∧
        removeOldest limit files (Census.total files) removed d =
          (.ok (removed + gone.length), d.without (paths gone))) ∨
      (∃ f ∈ files, ¬ Fits f.path) ∧
        ∃ e d', removeOldest limit files (Census.total files) removed d = (.error e, d') := by
  induction files generalizing d removed with
  | nil =>
    refine .inl ⟨[], [], rfl, .none (Nat.zero_le limit), ?_⟩
    rw [removeOldest, paths_nil, without_nil]
    rfl
  | cons f rest ih =>
    rw [removeOldest]
    by_cases hover : Census.total (f :: rest) ≤ limit
    · refine .inl ⟨[], f :: rest, rfl, .none hover, ?_⟩
      rw [if_pos hover, paths_nil, without_nil]
      rfl
    · rw [if_neg hover]
      simp only [bind, StateT.bind]
      rcases removeIfPresent_head h with hremove | ⟨long, e, hremove⟩
      · have hrest : Census.total (f :: rest) - f.length = Census.total rest := by
          rw [Census.total_cons, Nat.add_sub_cancel_left]
        rw [hremove]
        dsimp only
        rw [hrest]
        rcases ih h.tail (removed + 1) with ⟨gone, kept, rfl, hsurplus, hr⟩ | ⟨⟨g, hg, long⟩, hr⟩
        · refine .inl ⟨f :: gone, kept, rfl, hsurplus.cons (Nat.not_le.mp hover), ?_⟩
          rw [hr, without_without, List.length_cons, paths_cons, List.singleton_append,
            Nat.add_right_comm, Nat.add_assoc]
        · exact .inr ⟨⟨g, List.mem_cons_of_mem f hg, long⟩, hr⟩
      · rw [hremove]
        exact .inr ⟨⟨f, List.mem_cons_self, long⟩, e, d, rfl⟩

/-- No file that is not stale is looked for. -/
theorem removeStale_none (h : ∀ f ∈ files, s.isStale now f = false) (removed : Nat) :
    s.removeStale now files removed d = (.ok removed, d) := by
  induction files with
  | nil =>
    rw [removeStale]
    rfl
  | cons f rest ih =>
    obtain ⟨hf, hrest⟩ := List.forall_mem_cons.mp h
    rw [removeStale, hf, if_neg Bool.false_ne_true]
    exact ih hrest

theorem removeOldest_none {limit total : Nat} (h : total ≤ limit) (files : List FileInfo)
    (removed : Nat) : removeOldest limit files total removed d = (.ok removed, d) := by
  cases files with
  | nil =>
    rw [removeOldest]
    rfl
  | cons f rest =>
    rw [removeOldest, if_pos h]
    rfl

end Removing

theorem byAge_perm (files : List FileInfo) : (byAge files).Perm files := List.mergeSort_perm _ _

/-- No file comes behind one that is newer. -/
theorem byAge_sorted (files : List FileInfo) :
    (byAge files).Pairwise fun f g => f.modified ≤ g.modified := by
  have hsorted : (byAge files).Pairwise fun f g => decide (f.modified ≤ g.modified) = true := by
    refine List.pairwise_mergeSort ?_ ?_ files
    · intro a b c hab hbc
      rw [decide_eq_true_eq] at hab hbc ⊢
      exact Int.le_trans hab hbc
    · intro a b
      rw [Bool.or_eq_true, decide_eq_true_eq, decide_eq_true_eq]
      exact Int.le_total a.modified b.modified
  exact hsorted.imp of_decide_eq_true

/-- A choice of files to be removed from a tree: of the staged ones those that are stale, and of the
committed ones the oldest, as many as are needed. -/
structure Pruned (s : DirectoryStore) (d : Disk) (stale gone kept : List FileInfo) : Prop where
  stale : stale.Perm
    ((Census.filesBelow d s.root).filter fun f => isStaged f.path && s.isStale d.now f)
  committed : (gone ++ kept).Perm ((Census.filesBelow d s.root).filter fun f => !isStaged f.path)
  order : (gone ++ kept).Pairwise fun f g => f.modified ≤ g.modified
  surplus : Surplus s.maxBytes gone kept

variable {stale gone kept : List FileInfo}

theorem Pruned.mem_stale (h : Pruned s d stale gone kept) : f ∈ stale ↔
    f ∈ Census.filesBelow d s.root ∧ isStaged f.path = true ∧ s.isStale d.now f = true := by
  rw [h.stale.mem_iff, List.mem_filter, Bool.and_eq_true_iff]

theorem Pruned.mem_committed (h : Pruned s d stale gone kept) : f ∈ gone ++ kept ↔
    f ∈ Census.filesBelow d s.root ∧ isStaged f.path = false := by
  rw [h.committed.mem_iff, List.mem_filter, Bool.not_eq_true']

theorem prune_uncounted {e : Fault} (h : Census.take d s.root = .error e) :
    s.prune d = (.error e, d) := by
  simp only [prune, bind, StateT.bind, get, getThe, MonadStateOf.get, StateT.get, pure, h]
  rfl

theorem prune_counted {c : Census} (h : Census.take d s.root = .ok c) : s.prune d =
    match s.removeStale d.now c.staged 0 d with
    | (.error e, d) => (.error e, d)
    | (.ok removed, d) =>
      removeOldest s.maxBytes (byAge c.committed) (Census.total c.committed) removed d := by
  simp only [prune, bind, StateT.bind, get, getThe, MonadStateOf.get, StateT.get, pure, h]
  rcases s.removeStale d.now c.staged 0 d with ⟨reply, d'⟩
  cases reply with
  | error e => rfl
  | ok removed => rfl

/-- What a census has found stands in the tree, whatever the order. -/
theorem counted_standing (tree : d.Tree s.root) {c : Census}
    (holds : c.Holds (Census.filesBelow d s.root)) :
    Standing d (c.staged ++ byAge c.committed) ∧
      ∀ f ∈ c.staged ++ byAge c.committed, ∃ node ∈ d.nodesBelow s.root, node.1 = f.path := by
  have hall : (c.staged ++ byAge c.committed).Perm (Census.filesBelow d s.root) :=
    (holds.staged.append ((byAge_perm _).trans holds.committed)).trans (List.filter_append_perm _ _)
  refine ⟨(tree_standing tree).perm hall.symm, fun f hf => ?_⟩
  obtain ⟨id, hm, -⟩ := Census.mem_filesBelow.mp (hall.subset hf)
  exact ⟨_, hm, rfl⟩

/-- The stale ones of a census, and the oldest of the committed ones. -/
theorem counted_pruned {c : Census} (holds : c.Holds (Census.filesBelow d s.root))
    (split : byAge c.committed = gone ++ kept) (surplus : Surplus s.maxBytes gone kept) :
    Pruned s d (c.staged.filter (s.isStale d.now)) gone kept := by
  refine ⟨?_, ?_, ?_, surplus⟩
  · have hstale := holds.staged.filter (s.isStale d.now)
    rw [List.filter_filter] at hstale
    simpa only [Bool.and_comm] using hstale
  · rw [← split]
    exact (byAge_perm _).trans holds.committed
  · rw [← split]
    exact byAge_sorted _

/-- A flush removes the files of such a choice, unless the root is no directory or some path does
not fit. -/
theorem prune_cases (tree : d.Tree s.root) :
    (∃ stale gone kept, Pruned s d stale gone kept ∧
        s.prune d = (.ok (stale.length + gone.length), d.without (paths (stale ++ gone)))) ∨
      (d.find s.root ≠ .ok (some .dir) ∨ ∃ node ∈ d.nodesBelow s.root, ¬ Fits node.1) ∧
        ∃ e d', s.prune d = (.error e, d') := by
  cases ht : Census.take d s.root with
  | error e => exact .inr ⟨Census.take_fails tree ht, e, d, prune_uncounted ht⟩
  | ok c =>
    have holds := Census.take_holds tree ht
    obtain ⟨standing, below⟩ := counted_standing tree holds
    have unfit : ∀ f ∈ c.staged ++ byAge c.committed, ¬ Fits f.path →
        ∃ node ∈ d.nodesBelow s.root, ¬ Fits node.1 := by
      intro f hf long
      obtain ⟨node, hm, hpath⟩ := below f hf
      exact ⟨node, hm, hpath ▸ long⟩
    rw [prune_counted ht]
    rcases s.removeStale_cases d.now (standing.sublist (List.sublist_append_left _ _)) 0 with
      hstale | ⟨⟨f, hf, long⟩, e, d', hstale⟩
    · have hrest : Standing (d.without (paths (c.staged.filter (s.isStale d.now))))
          (byAge c.committed) :=
        (standing.sublist (List.filter_sublist.append_right _)).without
      rw [hstale, ← Census.total_perm (byAge_perm c.committed)]
      rcases removeOldest_cases hrest s.maxBytes
        (0 + (c.staged.filter (s.isStale d.now)).length) with
        ⟨gone, kept, split, surplus, hr⟩ | ⟨⟨f, hf, long⟩, hr⟩
      · refine .inl ⟨_, gone, kept, counted_pruned holds split surplus, ?_⟩
        dsimp only
        rw [hr, without_without, paths_append, Nat.zero_add]
      · exact .inr ⟨.inr (unfit f (List.mem_append_right _ hf) long), hr⟩
    · rw [hstale]
      exact .inr ⟨.inr (unfit f (List.mem_append_left _ hf) long), e, d', rfl⟩

/-- Where all paths fit a flush does not fail. -/
theorem prune_succeeds (tree : d.Tree s.root) (hroot : d.find s.root = .ok (some .dir))
    (fits : ∀ node ∈ d.nodesBelow s.root, Fits node.1) : ∃ n d', s.prune d = (.ok n, d') := by
  rcases prune_cases tree with ⟨stale, gone, kept, -, hr⟩ | ⟨hno | ⟨node, hm, long⟩, -⟩
  · exact ⟨_, _, hr⟩
  · exact absurd hroot hno
  · exact absurd (fits node hm) long

section AnyDisk

/-- Whatever the disk, all that is done to it is that files go. -/
def Thins {α : Type} (f : StateM Disk α) : Prop := ∀ d : Disk, d.Thinned (f d).2

theorem Thins.bind {α β : Type} {f : StateM Disk α} {g : α → StateM Disk β} (hf : Thins f)
    (hg : ∀ a, Thins (g a)) : Thins (f >>= g) := fun d => (hf d).trans (hg _ _)

theorem Thins.pure {α : Type} (a : α) : Thins (pure a) := fun d => .refl d

theorem removeIfPresent_thins (p : Path) : Thins (removeIfPresent p) := by
  refine .bind (removeFile_thins p) fun reply => ?_
  cases reply with
  | ok _ => exact .pure _
  | error e => exact .pure _

theorem removeStale_thins (s : DirectoryStore) (now : Int) (files : List FileInfo) (removed : Nat) :
    Thins (s.removeStale now files removed) := by
  induction files generalizing removed with
  | nil =>
    rw [removeStale]
    exact .pure _
  | cons f rest ih =>
    rw [removeStale]
    split
    · refine (removeIfPresent_thins f.path).bind fun reply => ?_
      cases reply with
      | error e => exact .pure _
      | ok _ => exact ih (removed + 1)
    · exact ih removed

theorem removeOldest_thins (limit : Nat) (files : List FileInfo) (total removed : Nat) :
    Thins (removeOldest limit files total removed) := by
  induction files generalizing total removed with
  | nil =>
    rw [removeOldest]
    exact .pure _
  | cons f rest ih =>
    rw [removeOldest]
    split
    · exact .pure _
    · refine (removeIfPresent_thins f.path).bind fun reply => ?_
      cases reply with
      | error e => exact .pure _
      | ok _ => exact ih (total - f.length) (removed + 1)

/-- A flush removes files and does nothing else, whatever there is on the disk. -/
theorem prune_thins (s : DirectoryStore) : Thins s.prune := by
  refine .bind (fun d => .refl d) fun d => ?_
  cases Census.take d s.root with
  | error e => exact .pure _
  | ok c =>
    refine (s.removeStale_thins d.now c.staged 0).bind fun reply => ?_
    cases reply with
    | error e => exact .pure _
    | ok removed => exact removeOldest_thins _ _ _ _

end AnyDisk

end DirectoryStore

end ImageCache
