import ImageCache.DirectoryStore.Prune
import ImageCache.Proofs.Disk.Tree

namespace ImageCache

open Disk EntryPath

def Census.fileAt (d : Disk) : Path × Node → Option FileInfo
  | (_, .dir) => none
  | (p, .file id) => some ⟨p, (d.file id).bytes.size, (d.file id).modified⟩

def Census.filesBelow (d : Disk) (p : Path) : List FileInfo :=
  (d.nodesBelow p).filterMap (Census.fileAt d)

/-- The directories that are visited when these are to be visited. -/
def Disk.toVisit (d : Disk) (pending : List Path) : List Path :=
  pending.flatMap fun p => p :: d.subdirs p

namespace Census

variable {d : Disk} {root p : Path} {c : Census} {files more : List FileInfo} {f : FileInfo}
  {pending : List Path}

/-- The census has these files, each once and on the side where its name puts it. -/
structure Holds (c : Census) (files : List FileInfo) : Prop where
  committed : c.committed.Perm (files.filter fun f => !isStaged f.path)
  staged : c.staged.Perm (files.filter fun f => isStaged f.path)

theorem Holds.empty : Holds empty [] := ⟨.refl _, .refl _⟩

theorem Holds.perm (h : c.Holds files) (hp : files.Perm more) : c.Holds more :=
  ⟨h.committed.trans (hp.filter _), h.staged.trans (hp.filter _)⟩

theorem Holds.add (h : c.Holds files) (f : FileInfo) : (c.add f).Holds (files ++ [f]) := by
  cases hs : isStaged f.path with
  | true =>
    rw [Census.add, if_pos hs]
    constructor
    · simpa [hs] using h.committed
    · simpa [hs] using h.staged.append_right [f]
  | false =>
    rw [Census.add, if_neg (by simp [hs])]
    constructor
    · simpa [hs] using h.committed.append_right [f]
    · simpa [hs] using h.staged

/-- A visit counts the files of a directory and has its directories visited next. -/
theorem Holds.visit (h : c.Holds files) (nodes : List (Path × Node)) (pending : List Path) :
    (visit d nodes (c, pending)).1.Holds (files ++ nodes.filterMap (fileAt d)) ∧
      (visit d nodes (c, pending)).2 = (nodes.filterMap dirAt).reverse ++ pending := by
  induction nodes generalizing c files pending with
  | nil =>
    rw [Census.visit]
    exact ⟨by simpa using h, rfl⟩
  | cons node rest ih =>
    obtain ⟨p, n⟩ := node
    cases n with
    | dir =>
      obtain ⟨hholds, hpending⟩ := ih h (p :: pending)
      rw [Census.visit]
      refine ⟨hholds, ?_⟩
      rw [hpending]
      simp [dirAt]
    | file id =>
      obtain ⟨hholds, hpending⟩ := ih (h.add ⟨p, (d.file id).bytes.size, (d.file id).modified⟩)
        pending
      rw [Census.visit]
      refine ⟨?_, hpending⟩
      simpa [fileAt] using hholds

theorem filesBelow_perm (h : d.Tree p) : (filesBelow d p).Perm
    ((d.inside p).filterMap (fileAt d) ++ (d.dirsInside p).flatMap (filesBelow d)) := by
  have hperm := (nodesBelow_perm h).filterMap (fileAt d)
  rwa [List.filterMap_append, List.filterMap_flatMap] at hperm

/-- To visit a directory is to visit it and then those inside it. -/
theorem toVisit_perm (h : d.Tree p) (pending : List Path) : (d.toVisit (p :: pending)).Perm
    (p :: d.toVisit ((d.dirsInside p).reverse ++ pending)) := by
  have hinside : (d.subdirs p).Perm (d.toVisit (d.dirsInside p).reverse) :=
    (subdirs_perm h).trans ((List.reverse_perm _).symm.flatMap_right _)
  rw [toVisit, List.flatMap_cons, toVisit, List.flatMap_append]
  exact (hinside.append_right _).cons p

/-- What a directory brings is what it has inside and what those inside it bring. -/
theorem counted_perm (h : d.Tree p) (pending : List Path) (files : List FileInfo) :
    (files ++ (d.inside p).filterMap (fileAt d) ++
        ((d.dirsInside p).reverse ++ pending).flatMap (filesBelow d)).Perm
      (files ++ (p :: pending).flatMap (filesBelow d)) := by
  have hinside : ((d.inside p).filterMap (fileAt d) ++
      (d.dirsInside p).reverse.flatMap (filesBelow d)).Perm (filesBelow d p) :=
    (((List.reverse_perm _).flatMap_right _).append_left _).trans (filesBelow_perm h).symm
  rw [List.flatMap_append, List.flatMap_cons, List.append_assoc]
  refine List.Perm.append_left files ?_
  rw [← List.append_assoc]
  exact hinside.append_right _

/-- A directory whose nodes can be listed is found as one. -/
theorem list_ok_iff {nodes : List (Path × Node)} :
    (Disk.list p d).1 = .ok nodes ↔ d.find p = .ok (some .dir) ∧ nodes = d.inside p := by
  rw [Disk.list]
  cases hf : d.find p with
  | error e => simp
  | ok found =>
    match found with
    | none => simp
    | some (.file id) => simp
    | some .dir => simp [eq_comm]

/-- What comes of a count of these files in these directories: a census that has them, if every one
of the directories can be opened, and a fault if one cannot. -/
inductive Counts (d : Disk) (files : List FileInfo) (dirs : List Path) : Except Fault Census → Prop
  | counted {c : Census} (holds : c.Holds files)
      (opened : ∀ p ∈ dirs, d.find p = .ok (some .dir)) : Counts d files dirs (.ok c)
  | closed {e : Fault} {p : Path} (dir : p ∈ dirs) (closed : d.find p ≠ .ok (some .dir)) :
      Counts d files dirs (.error e)

theorem Counts.perm {dirs others : List Path} {reply : Except Fault Census}
    (h : Counts d files dirs reply) (hfiles : files.Perm more) (hdirs : dirs.Perm others) :
    Counts d more others reply := by
  cases h with
  | counted holds opened =>
    exact .counted (holds.perm hfiles) fun p hp => opened p (hdirs.mem_iff.mpr hp)
  | closed dir closed => exact .closed (hdirs.subset dir) closed

/-- One more directory was opened on the way. -/
theorem Counts.cons {dirs : List Path} {reply : Except Fault Census} (h : Counts d files dirs reply)
    (hp : d.find p = .ok (some .dir)) : Counts d files (p :: dirs) reply := by
  cases h with
  | counted holds opened => exact .counted holds (List.forall_mem_cons.mpr ⟨hp, opened⟩)
  | closed dir closed => exact .closed (List.mem_cons_of_mem p dir) closed

/-- With a visit left for each directory, all files below those on the list are counted. -/
theorem gather_counts (tree : d.Tree root) {fuel : Nat} (hp : ∀ p ∈ pending, root <+: p)
    (enough : (d.toVisit pending).length ≤ fuel) (h : c.Holds files) :
    Counts d (files ++ pending.flatMap (filesBelow d)) (d.toVisit pending)
      (gather d fuel pending c) := by
  induction fuel generalizing pending c files with
  | zero =>
    cases pending with
    | nil =>
      rw [gather]
      exact .counted (by simpa using h) (by simp [toVisit])
    | cons p pending =>
      simp only [toVisit, List.flatMap_cons, List.cons_append, List.length_cons] at enough
      omega
  | succ fuel ih =>
    cases pending with
    | nil =>
      rw [gather]
      exact .counted (by simpa using h) (by simp [toVisit])
    | cons p pending =>
      obtain ⟨hroot, hpending⟩ := List.forall_mem_cons.mp hp
      have part := tree.part hroot
      have hvisits := toVisit_perm part pending
      rw [gather]
      cases hl : (Disk.list p d).1 with
      | error e =>
        refine .closed (hvisits.symm.subset List.mem_cons_self) fun hf => ?_
        rw [list_ok_iff.mpr ⟨hf, rfl⟩] at hl
        cases hl
      | ok nodes =>
        obtain ⟨hfound, rfl⟩ := list_ok_iff.mp hl
        obtain ⟨hholds, hnext⟩ := h.visit (d := d) (d.inside p) pending
        have hroots : ∀ q ∈ (d.dirsInside p).reverse ++ pending, root <+: q := by
          intro q hq
          rcases List.mem_append.mp hq with hq | hq
          · obtain ⟨-, hne, hin⟩ := mem_inside.mp (mem_dirsInside.mp (List.mem_reverse.mp hq))
            exact hroot.trans (prefix_of_inside hne hin).1
          · exact hpending q hq
        have hlength := hvisits.length_eq
        rw [List.length_cons] at hlength
        have hrest := (ih hroots (by omega) hholds).cons hfound
        dsimp only
        rw [hnext]
        exact hrest.perm (counted_perm part pending files) hvisits.symm

theorem toVisit_root (d : Disk) (root : Path) : d.toVisit [root] = root :: d.subdirs root := by
  simp [toVisit]

/-- No directory is visited twice, so there are visits enough for all of them. -/
theorem toVisit_root_le (d : Disk) (root : Path) :
    (d.toVisit [root]).length ≤ d.nodes.length + 1 := by
  have hdirs : (d.subdirs root).length ≤ (d.nodesBelow root).length := List.length_filterMap_le _ _
  have hbelow : (d.nodesBelow root).length ≤ d.nodes.length := List.length_filter_le _ _
  rw [toVisit_root, List.length_cons]
  omega

theorem take_counts (tree : d.Tree root) :
    Counts d (filesBelow d root) (root :: d.subdirs root) (take d root) := by
  have hcounts := gather_counts tree (by simp) (toVisit_root_le d root) Holds.empty
  rw [toVisit_root] at hcounts
  rw [take]
  simpa using hcounts

/-- A census has each file below the root once: with the staged ones if its name ends like theirs,
and with the committed ones if not. -/
theorem take_holds (tree : d.Tree root) (h : take d root = .ok c) :
    c.Holds (filesBelow d root) := by
  have hcounts := take_counts tree
  rw [h] at hcounts
  cases hcounts with
  | counted holds opened => exact holds

/-- There is a census just if the root and all directories below it can be opened. -/
theorem take_ok_iff (tree : d.Tree root) : (∃ c, take d root = .ok c) ↔
    ∀ p ∈ root :: d.subdirs root, d.find p = .ok (some .dir) := by
  have hcounts := take_counts tree
  constructor
  · intro h
    obtain ⟨c, hc⟩ := h
    rw [hc] at hcounts
    cases hcounts with
    | counted holds opened => exact opened
  · intro h
    cases ht : take d root with
    | ok c => exact ⟨c, rfl⟩
    | error e =>
      rw [ht] at hcounts
      cases hcounts with
      | closed dir closed => exact absurd (h _ dir) closed

/-- A census fails only if the root is no directory or the path of something below it does not
fit. -/
theorem take_fails (tree : d.Tree root) {e : Fault} (h : take d root = .error e) :
    d.find root ≠ .ok (some .dir) ∨ ∃ node ∈ d.nodesBelow root, ¬ Fits node.1 := by
  obtain ⟨p, hp, closed⟩ : ∃ p ∈ root :: d.subdirs root, d.find p ≠ .ok (some .dir) := by
    have hcounts := take_counts tree
    rw [h] at hcounts
    cases hcounts with
    | closed dir closed => exact ⟨_, dir, closed⟩
  rcases List.mem_cons.mp hp with rfl | hp
  · exact .inl closed
  · have hm := mem_subdirs.mp hp
    refine .inr ⟨_, hm, fun fits => closed ?_⟩
    exact find_ok_iff.mpr ⟨fits, tree.accessible hm, tree.node? hm⟩

/-- What a census tells of a node, it tells of its path. -/
theorem fileAt_path {node : Path × Node} (h : fileAt d node = some f) : f.path = node.1 := by
  obtain ⟨q, n⟩ := node
  cases n with
  | dir => cases h
  | file id =>
    cases h
    rfl

theorem mem_filesBelow : f ∈ filesBelow d p ↔
    ∃ id, (f.path, .file id) ∈ d.nodesBelow p ∧ f.length = (d.file id).bytes.size ∧
      f.modified = (d.file id).modified := by
  rw [filesBelow, List.mem_filterMap]
  constructor
  · intro h
    obtain ⟨⟨q, n⟩, hm, hf⟩ := h
    cases n with
    | dir => cases hf
    | file id =>
      cases hf
      exact ⟨id, hm, rfl, rfl⟩
  · intro h
    obtain ⟨id, hm, hlength, hmodified⟩ := h
    refine ⟨_, hm, ?_⟩
    rw [fileAt, ← hlength, ← hmodified]

@[simp]
theorem total_cons (f : FileInfo) (files : List FileInfo) :
    total (f :: files) = f.length + total files := rfl

theorem total_perm (h : files.Perm more) : total files = total more := by
  induction h with
  | nil => rfl
  | cons f _ ih => rw [total_cons, total_cons, ih]
  | swap f g files =>
    rw [total_cons, total_cons, total_cons, total_cons]
    omega
  | trans _ _ ih ih' => exact ih.trans ih'

end Census

end ImageCache
