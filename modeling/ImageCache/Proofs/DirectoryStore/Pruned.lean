import ImageCache.Proofs.DirectoryStore.Pruning
import ImageCache.Proofs.Words

namespace ImageCache

open Disk EntryPath

namespace Census

variable {d : Disk} {files more : List FileInfo}

theorem filesBelow_without (d : Disk) (paths : List Path) (p : Path) :
    filesBelow (d.without paths) p = (filesBelow d p).filter (·.path ∉ paths) := by
  rw [filesBelow, filesBelow, nodesBelow_without, List.filterMap_filter, List.filter_filterMap]
  refine List.filterMap_congr fun node _ => ?_
  obtain ⟨q, n⟩ := node
  cases n with
  | dir => simp [fileAt]
  | file id =>
    by_cases hq : q ∈ paths
    · simp [fileAt, Option.filter_some, hq]
    · simp [fileAt, Option.filter_some, hq, Disk.file, Disk.without]

theorem total_sublist (h : more.Sublist files) : total more ≤ total files := by
  induction h with
  | slnil => exact Nat.le_refl _
  | cons f _ ih => exact Nat.le_trans ih (Nat.le_add_left _ _)
  | cons_cons f _ ih => exact Nat.add_le_add_left ih _

/-- The bytes of files together, unless a sum on the way does not fit into its word. -/
def total? (files : List FileInfo) : Option UInt64 :=
  files.foldlM (fun sum f => Word.plus? sum (UInt64.ofNat f.length)) 0

theorem sum_eq (files : List FileInfo) (sum : UInt64) (h : sum.toNat + total files < UInt64.size) :
    ∃ word, files.foldlM (fun sum f => Word.plus? sum (UInt64.ofNat f.length)) sum = some word ∧
      word.toNat = sum.toNat + total files := by
  induction files generalizing sum with
  | nil => exact ⟨sum, rfl, rfl⟩
  | cons f files ih =>
    rw [total_cons, ← Nat.add_assoc] at h
    have hlength : (UInt64.ofNat f.length).toNat = f.length :=
      UInt64.toNat_ofNat_of_lt' (by omega)
    have hfits : sum.toNat + (UInt64.ofNat f.length).toNat < UInt64.size := by
      rw [hlength]
      omega
    have hsum := Word.toNat_add hfits
    rw [hlength] at hsum
    obtain ⟨word, hword, hvalue⟩ := ih (sum + UInt64.ofNat f.length) (by rwa [hsum])
    refine ⟨word, ?_, ?_⟩
    · rw [List.foldlM_cons, Word.plus?_eq hfits]
      exact hword
    · rw [hvalue, hsum, total_cons, Nat.add_assoc]

theorem total?_eq (h : total files < UInt64.size) :
    ∃ word, total? files = some word ∧ word.toNat = total files := by
  obtain ⟨word, hword, hvalue⟩ := sum_eq files 0 (by simpa using h)
  exact ⟨word, hword, by simpa using hvalue⟩

end Census

namespace DirectoryStore

variable {s : DirectoryStore} {d d' : Disk} {n : Nat} {files stale gone kept : List FileInfo}
  {f : FileInfo}

section Words

/-- To remove files from the front, unless more is taken off the running total than it is. -/
def removeOldest? (limit : UInt64) : List FileInfo → (total : UInt64) → (removed : Nat) →
    Disk → Option (Except Fault Nat × Disk)
  | [], _, removed, d => some (.ok removed, d)
  | f :: rest, total, removed, d =>
    if total ≤ limit then some (.ok removed, d)
    else
      match removeIfPresent f.path d with
      | (.error e, d) => some (.error e, d)
      | (.ok (), d) => do
        let left ← Word.minus? total (UInt64.ofNat f.length)
        removeOldest? limit rest left (removed + 1) d

def prune? (s : DirectoryStore) (d : Disk) : Option (Except Fault Nat × Disk) :=
  match Census.take d s.root with
  | .error e => some (.error e, d)
  | .ok c =>
    match s.removeStale d.now c.staged 0 d with
    | (.error e, d) => some (.error e, d)
    | (.ok removed, d) => do
      let total ← Census.total? c.committed
      removeOldest? (UInt64.ofNat s.maxBytes) (byAge c.committed) total removed d

/-- A total that is the sum of the files that are left has enough to take each of them off. -/
theorem removeOldest?_eq {limit total : UInt64} (h : total.toNat = Census.total files)
    (removed : Nat) (d : Disk) : removeOldest? limit files total removed d =
      some (removeOldest limit.toNat files total.toNat removed d) := by
  induction files generalizing total removed d with
  | nil =>
    rw [removeOldest?, removeOldest]
    rfl
  | cons f rest ih =>
    rw [removeOldest?, removeOldest]
    by_cases hover : total ≤ limit
    · rw [if_pos hover, if_pos (UInt64.le_iff_toNat_le.mp hover)]
      rfl
    · rw [if_neg hover, if_neg fun hc => hover (UInt64.le_iff_toNat_le.mpr hc)]
      rw [Census.total_cons] at h
      have hword : total.toNat < UInt64.size := total.toNat_lt_size
      have hlength : (UInt64.ofNat f.length).toNat = f.length :=
        UInt64.toNat_ofNat_of_lt' (by omega)
      have hle : (UInt64.ofNat f.length).toNat ≤ total.toNat := by omega
      have hleft := Word.toNat_sub hle
      rw [hlength] at hleft
      simp only [bind, StateT.bind]
      rcases removeIfPresent f.path d with ⟨reply, d'⟩
      cases reply with
      | error e => rfl
      | ok _ =>
        simp only [Word.minus?_eq hle, Option.bind_some]
        rw [ih (by omega) (removed + 1) d', hleft]

/-- A tree with fewer bytes than a word can count is flushed without one going round. -/
theorem prune?_eq (tree : d.Tree s.root)
    (bytes : Census.total (Census.filesBelow d s.root) < UInt64.size)
    (limit : s.maxBytes < UInt64.size) :
    s.prune? d = some (s.prune d) := by
  rw [prune?]
  cases ht : Census.take d s.root with
  | error e => rw [prune_uncounted ht]
  | ok c =>
    rw [prune_counted ht]
    dsimp only
    rcases s.removeStale d.now c.staged 0 d with ⟨reply, d'⟩
    cases reply with
    | error e => rfl
    | ok removed =>
      have hcommitted : Census.total c.committed < UInt64.size := by
        rw [Census.total_perm (Census.take_holds tree ht).committed]
        exact Nat.lt_of_le_of_lt (Census.total_sublist List.filter_sublist) bytes
      obtain ⟨total, htotal, hvalue⟩ := Census.total?_eq hcommitted
      have hsum : total.toNat = Census.total (byAge c.committed) := by
        rw [hvalue, Census.total_perm (byAge_perm c.committed)]
      have hlimit : (UInt64.ofNat s.maxBytes).toNat = s.maxBytes :=
        UInt64.toNat_ofNat_of_lt' limit
      simp only [htotal, Option.bind_eq_bind, Option.bind_some]
      rw [removeOldest?_eq hsum, hlimit, hvalue]

end Words

namespace Pruned

theorem standing (h : Pruned s d stale gone kept) (tree : d.Tree s.root) :
    Standing d (stale ++ (gone ++ kept)) := by
  have hall := (tree_standing tree).perm
    (List.filter_append_perm (fun f => isStaged f.path) (Census.filesBelow d s.root)).symm
  have hstale : ((Census.filesBelow d s.root).filter fun f =>
      isStaged f.path && s.isStale d.now f).Sublist
        ((Census.filesBelow d s.root).filter fun f => isStaged f.path) :=
    List.monotone_filter_right _ fun f hf => (Bool.and_eq_true_iff.mp hf).1
  exact (hall.sublist (hstale.append_right _)).perm (h.stale.append h.committed).symm

/-- The files that go. -/
theorem hasFiles (h : Pruned s d stale gone kept) (tree : d.Tree s.root) :
    d.HasFiles (paths (stale ++ gone)) := by
  have hgone : (stale ++ gone).Sublist (stale ++ (gone ++ kept)) :=
    (List.sublist_append_left gone kept).append_left stale
  exact ((h.standing tree).sublist hgone).hasFiles

/-- A file of the tree that is not among those that go keeps its path. -/
theorem path_stays (h : Pruned s d stale gone kept) (tree : d.Tree s.root)
    (hf : f ∈ Census.filesBelow d s.root) (hstale : f ∉ stale) (hgone : f ∉ gone) :
    f.path ∉ paths (stale ++ gone) := by
  intro hm
  obtain ⟨g, hg, hpath⟩ := List.mem_map.mp hm
  have htree : g ∈ Census.filesBelow d s.root := by
    rcases List.mem_append.mp hg with hg | hg
    · exact (h.mem_stale.mp hg).1
    · exact (h.mem_committed.mp (List.mem_append_left kept hg)).1
  obtain rfl := (tree_standing tree).eq_of_path htree hf hpath
  rcases List.mem_append.mp hg with hg | hg
  · exact hstale hg
  · exact hgone hg

/-- No file that is left has the name of a staged one and is stale. -/
theorem fresh (h : Pruned s d stale gone kept)
    (hf : f ∈ Census.filesBelow (d.without (paths (stale ++ gone))) s.root)
    (hstaged : isStaged f.path = true) : s.isStale d.now f = false := by
  rw [Census.filesBelow_without, List.mem_filter] at hf
  rw [Bool.eq_false_iff]
  intro hs
  have hm : f ∈ stale := h.mem_stale.mpr ⟨hf.1, hstaged, hs⟩
  exact of_decide_eq_true hf.2 (mem_paths (List.mem_append_left gone hm))

/-- The committed files that are left are those that were kept. -/
theorem rest (h : Pruned s d stale gone kept) (tree : d.Tree s.root) :
    ((Census.filesBelow (d.without (paths (stale ++ gone))) s.root).filter fun f =>
      !isStaged f.path).Perm kept := by
  rw [Census.filesBelow_without, List.filter_comm]
  have hgone : gone.filter (fun f => decide (f.path ∉ paths (stale ++ gone))) = [] := by
    refine List.filter_eq_nil_iff.mpr fun f hf hc => ?_
    exact of_decide_eq_true hc (mem_paths (List.mem_append_right stale hf))
  have hkept : kept.filter (fun f => decide (f.path ∉ paths (stale ++ gone))) = kept := by
    refine List.filter_eq_self.mpr fun f hf => decide_eq_true ?_
    obtain ⟨htree, hunstaged⟩ := h.mem_committed.mp (List.mem_append_right gone hf)
    refine h.path_stays tree htree (fun hm => ?_) fun hm => ?_
    · rw [(h.mem_stale.mp hm).2.1] at hunstaged
      cases hunstaged
    · have hsingle := ((h.standing tree).sublist (List.sublist_append_right stale _)).single
      rw [paths_append, List.nodup_append] at hsingle
      exact hsingle.2.2 _ (mem_paths hm) _ (mem_paths hf) rfl
  have hperm := h.committed.symm.filter fun f => decide (f.path ∉ paths (stale ++ gone))
  rwa [List.filter_append, hgone, hkept, List.nil_append] at hperm

/-- A census of what is left finds nothing stale, and just the kept files committed. -/
theorem census (h : Pruned s d stale gone kept) (tree : d.Tree s.root) {c : Census}
    (ht : Census.take d s.root = .ok c) :
    ∃ c', Census.take (d.without (paths (stale ++ gone))) s.root = .ok c' ∧
      (∀ f ∈ c'.staged, s.isStale d.now f = false) ∧
      Census.total c'.committed = Census.total kept := by
  have hfiles := h.hasFiles tree
  have tree' := tree.without hfiles
  have hopened := (Census.take_ok_iff tree).mp ⟨c, ht⟩
  obtain ⟨c', ht'⟩ := (Census.take_ok_iff tree').mpr fun p hp =>
    hfiles.find_dir (hopened p ((List.cons_subset_cons _ (subdirs_without d _ _)) hp))
  have holds := Census.take_holds tree' ht'
  refine ⟨c', ht', fun f hf => ?_, Census.total_perm (holds.committed.trans (h.rest tree))⟩
  obtain ⟨hm, hstaged⟩ := List.mem_filter.mp (holds.staged.subset hf)
  exact h.fresh hm hstaged

end Pruned

/-- A flush that does not fail takes just those staged files that are stale, and of the committed
ones the oldest, no more of them than are needed for the rest to keep to the limit. No word goes
round on the way; directories and staged files that are not stale stay; and another flush at the
same time has nothing to take. -/
theorem prune_minimal (tree : d.Tree s.root)
    (bytes : Census.total (Census.filesBelow d s.root) < UInt64.size)
    (limit : s.maxBytes < UInt64.size)
    (h : s.prune d = (.ok n, d')) :
    ∃ stale gone kept, Pruned s d stale gone kept ∧ n = stale.length + gone.length ∧
      d' = d.without (paths (stale ++ gone)) ∧
      s.size d' = .ok (Census.total kept) ∧ Census.total kept ≤ s.maxBytes ∧
      (∀ f ∈ gone, ∀ g ∈ kept, f.modified ≤ g.modified) ∧
      (∀ f ∈ gone.getLast?, s.maxBytes < Census.total kept + f.length) ∧
      (∀ p, d.node? p = some .dir → d'.node? p = some .dir) ∧
      (∀ f ∈ Census.filesBelow d s.root, isStaged f.path = true → s.isStale d.now f = false →
        f ∈ Census.filesBelow d' s.root) ∧
      s.prune? d = some (.ok n, d') ∧ s.prune d' = (.ok 0, d') := by
  rcases prune_cases tree with ⟨stale, gone, kept, hpruned, hr⟩ | ⟨-, e, d'', hr⟩
  swap
  · rw [hr] at h
    cases h
  rw [hr] at h
  obtain ⟨hn, rfl⟩ := Prod.mk.inj h
  obtain ⟨c, ht⟩ : ∃ c, Census.take d s.root = .ok c := by
    cases ht : Census.take d s.root with
    | ok c => exact ⟨c, rfl⟩
    | error e =>
      rw [prune_uncounted ht] at hr
      cases hr
  obtain ⟨c', ht', hfresh, htotal⟩ := hpruned.census tree ht
  have hwithin := hpruned.surplus.within
  refine ⟨stale, gone, kept, hpruned, (Except.ok.inj hn).symm, rfl, ?_, hwithin, ?_, ?_, ?_, ?_, ?_,
    ?_⟩
  · rw [size, ht', ← htotal]
    rfl
  · exact fun f hf g hg => (List.pairwise_append.mp hpruned.order).2.2 f hf g hg
  · intro f hf
    obtain ⟨before, rfl⟩ := List.getLast?_eq_some_iff.mp hf
    have hneeded := hpruned.surplus.needed before f [] rfl
    rwa [List.cons_append, List.nil_append, Census.total_cons, Nat.add_comm] at hneeded
  · exact fun p hp => (hpruned.hasFiles tree).dir hp
  · intro f hf hstaged hs
    have hstale : f ∉ stale := fun hm => by
      rw [(hpruned.mem_stale.mp hm).2.2] at hs
      cases hs
    have hgone : f ∉ gone := fun hm => by
      rw [(hpruned.mem_committed.mp (List.mem_append_left kept hm)).2] at hstaged
      cases hstaged
    rw [Census.filesBelow_without, List.mem_filter]
    exact ⟨hf, decide_eq_true (hpruned.path_stays tree hf hstale hgone)⟩
  · rw [prune?_eq tree bytes limit, hr, hn]
  · rw [prune_counted ht']
    have hnone := removeStale_none (d := d.without (paths (stale ++ gone))) hfresh 0
    have hnow : (d.without (paths (stale ++ gone))).now = d.now := rfl
    rw [hnow, hnone]
    exact removeOldest_none (by rw [htotal]; exact hwithin) _ 0

/-- Room is for four bytes, and ten nanoseconds make a staged file stale. -/
def attic : DirectoryStore := ⟨[], 4, ⟨0, 10⟩⟩

/-- Seven bytes are committed, four of them with a time that is still to come; of the staged files
one has just become stale and one is from the future. -/
def clutter : Disk where
  nodes := [(["k"], .dir), (["k", "a.tmp"], .file 0), (["k", "a"], .file 1), (["b"], .file 2),
    (["k", "e.tmp"], .dir), (["k", "e.tmp", "c"], .file 3), (["d.tmp"], .file 4), (["z"], .file 5)]
  files := #[⟨⟨#[0]⟩, 10⟩, ⟨⟨#[0, 0, 0]⟩, 5⟩, ⟨⟨#[]⟩, 2⟩, ⟨⟨#[0, 0, 0, 0]⟩, 30⟩, ⟨⟨#[0]⟩, 25⟩,
    ⟨⟨#[]⟩, 5⟩]
  now := 20

theorem clutter_tree : clutter.Tree [] := .of_nodes (by decide +kernel) (by decide +kernel) []

/-- The stale file goes, the other staged one stays, and what is committed has room afterwards. -/
theorem clutter_pruned : clutter.Tree attic.root ∧
    Census.total (Census.filesBelow clutter attic.root) < UInt64.size ∧
    attic.maxBytes < UInt64.size ∧
    ∃ n d', attic.prune clutter = (.ok n, d') ∧ d'.node? ["k", "a.tmp"] = none ∧
      (∃ m, attic.size d' = .ok m ∧ m ≤ 4) ∧ d'.node? ["k", "e.tmp"] = some .dir ∧
      attic.prune d' = (.ok 0, d') := by
  have bytes : Census.total (Census.filesBelow clutter attic.root) < UInt64.size := by
    decide +kernel
  have limit : attic.maxBytes < UInt64.size := by decide +kernel
  have fits : ∀ node ∈ clutter.nodesBelow attic.root, Fits node.1 := by decide +kernel
  obtain ⟨n, d', hr⟩ := prune_succeeds clutter_tree rfl fits
  obtain ⟨stale, gone, kept, hpruned, -, rfl, hsize, hwithin, -, -, hdirs, -, -, hagain⟩ :=
    prune_minimal clutter_tree bytes limit hr
  have hstale : ⟨["k", "a.tmp"], 1, 10⟩ ∈ stale := by
    refine hpruned.mem_stale.mpr ⟨?_, by decide +kernel, by decide +kernel⟩
    exact Census.mem_filesBelow.mpr ⟨0, by decide +kernel, rfl, rfl⟩
  refine ⟨clutter_tree, bytes, limit, n, _, hr, ?_, ⟨_, hsize, hwithin⟩, hdirs _ rfl, hagain⟩
  rw [(hpruned.hasFiles clutter_tree).node?, if_pos]
  exact mem_paths (List.mem_append_left gone hstale)

end DirectoryStore

end ImageCache
