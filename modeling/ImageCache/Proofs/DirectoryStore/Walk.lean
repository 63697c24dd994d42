import ImageCache.Proofs.DirectoryStore.Pruning

namespace ImageCache

open Disk EntryPath

namespace EntryPath

def written (p : Path) : List Char := p.flatMap fun name => '/' :: name.toList

/-- An ending without this character is one of what stands behind the character. -/
theorem suffix_behind {ending front cs : List Char} {c : Char} (h : c ∉ ending) :
    ending <:+ front ++ c :: cs ↔ ending <:+ cs := by
  have hcs : cs <:+ front ++ c :: cs := (List.suffix_cons c cs).trans (List.suffix_append _ _)
  constructor
  · intro he
    rcases List.suffix_or_suffix_of_suffix he (List.suffix_append front (c :: cs)) with hc | hc
    · rcases List.suffix_cons_iff.mp hc with rfl | hc
      · exact absurd List.mem_cons_self h
      · exact hc
    · exact absurd (hc.subset List.mem_cons_self) h
  · intro he
    exact he.trans hcs

/-- The name at the end of a path has the ending just if the whole path has. -/
theorem isStaged_iff_written (p : Path) :
    isStaged p = true ↔ suffix.toList <:+ written p := by
  rcases List.eq_nil_or_concat p with rfl | ⟨front, name, rfl⟩
  · decide
  · have slash : '/' ∉ suffix.toList := by decide
    rw [List.concat_eq_append, isStaged_append, List.isSuffixOf_iff_suffix, written,
      List.flatMap_append, List.flatMap_singleton, suffix_behind slash]

theorem isStaged_iff_named (p : Path) :
    isStaged p = true ↔ ∃ front stem, p = front ++ [stem ++ suffix] := by
  constructor
  · intro h
    rcases List.eq_nil_or_concat p with rfl | ⟨front, name, rfl⟩
    · cases h
    · rw [List.concat_eq_append, isStaged_append, List.isSuffixOf_iff_suffix] at h
      obtain ⟨stem, hstem⟩ := h
      have hname : name = String.ofList stem ++ suffix := by
        apply String.toList_inj.mp
        rw [String.toList_append, String.toList_ofList, hstem]
      exact ⟨front, String.ofList stem, by rw [List.concat_eq_append, hname]⟩
  · rintro ⟨front, stem, rfl⟩
    rw [isStaged_append, List.isSuffixOf_iff_suffix, String.toList_append]
    exact List.suffix_append _ _

end EntryPath

/-- A file stands below a directory, with this length and this time. -/
structure FileInfo.StandsBelow (f : FileInfo) (d : Disk) (root : Path) : Prop where
  above : root <+: f.path
  strict : f.path ≠ root
  file : ∃ id, d.node? f.path = some (.file id) ∧ f.length = (d.file id).bytes.size ∧
    f.modified = (d.file id).modified

namespace Census

variable {d : Disk} {root p : Path} {c : Census} {files : List FileInfo} {f : FileInfo}
  {pending : List Path} {reply : Except Fault Census}

/-- A walk along these directories, from what was counted so far: each is listed in its turn, its
files are counted, and the directories in it are put in front of those that are left. There is no
bound on the number of steps. -/
inductive Walk (d : Disk) : List Path → Census → Except Fault Census → Prop
  | ended {c : Census} : Walk d [] c (.ok c)
  | closed {p : Path} {pending : List Path} {c : Census} {e : Fault}
      (listed : (Disk.list p d).1 = .error e) : Walk d (p :: pending) c (.error e)
  | visited {p : Path} {pending : List Path} {c : Census} {nodes : List (Path × Node)}
      {reply : Except Fault Census} (listed : (Disk.list p d).1 = .ok nodes)
      (rest : Walk d (visit d nodes (c, pending)).2 (visit d nodes (c, pending)).1 reply) :
      Walk d (p :: pending) c reply

/-- A walk comes to one end only. -/
theorem Walk.unique {other : Except Fault Census} (h : Walk d pending c reply)
    (ho : Walk d pending c other) : reply = other := by
  induction h with
  | ended =>
    cases ho
    rfl
  | closed listed =>
    cases ho with
    | closed listed' => rw [Except.error.inj (listed.symm.trans listed')]
    | visited listed' => cases listed.symm.trans listed'
  | visited listed _ ih =>
    cases ho with
    | closed listed' => cases listed.symm.trans listed'
    | visited listed' rest =>
      cases Except.ok.inj (listed.symm.trans listed')
      exact ih rest

/-- What is left to visit behind a directory is in the tree, and one visit less. -/
theorem toVisit_next (tree : d.Tree root) (hp : root <+: p) (hpending : ∀ q ∈ pending, root <+: q)
    {next : List Path} (hnext : next = (d.dirsInside p).reverse ++ pending) :
    (∀ q ∈ next, root <+: q) ∧
      (d.toVisit (p :: pending)).length = (d.toVisit next).length + 1 := by
  subst hnext
  constructor
  · intro q hq
    rcases List.mem_append.mp hq with hq | hq
    · obtain ⟨-, hne, hin⟩ := mem_inside.mp (mem_dirsInside.mp (List.mem_reverse.mp hq))
      exact hp.trans (prefix_of_inside hne hin).1
    · exact hpending q hq
  · exact (toVisit_perm (tree.part hp) pending).length_eq

/-- With a visit left for each directory, the bound on visits is not what ends the walk. -/
theorem gather_walks (tree : d.Tree root) {fuel : Nat} (hp : ∀ p ∈ pending, root <+: p)
    (enough : (d.toVisit pending).length ≤ fuel) (h : c.Holds files) :
    Walk d pending c (gather d fuel pending c) := by
  induction fuel generalizing pending c files with
  | zero =>
    cases pending with
    | nil => exact .ended
    | cons p pending =>
      simp only [toVisit, List.flatMap_cons, List.cons_append, List.length_cons] at enough
      omega
  | succ fuel ih =>
    cases pending with
    | nil => exact .ended
    | cons p pending =>
      obtain ⟨hroot, hpending⟩ := List.forall_mem_cons.mp hp
      rw [gather]
      cases hl : (Disk.list p d).1 with
      | error e => exact .closed hl
      | ok nodes =>
        obtain ⟨-, rfl⟩ := list_ok_iff.mp hl
        obtain ⟨hholds, hleft⟩ := h.visit (d := d) (d.inside p) pending
        obtain ⟨hnext, hlength⟩ := toVisit_next tree hroot hpending hleft
        exact .visited hl (ih hnext (by omega) hholds)

/-- There is one walk along a tree, and the census is what it comes to. -/
theorem walk_iff (tree : d.Tree root) : Walk d [root] empty reply ↔ take d root = reply := by
  have walks : Walk d [root] empty (take d root) :=
    gather_walks tree (by simp) (toVisit_root_le d root) Holds.empty
  constructor
  · exact walks.unique
  · rintro rfl
    exact walks

theorem mem_filesBelow_iff (tree : d.Tree root) :
    f ∈ filesBelow d root ↔ f.StandsBelow d root := by
  rw [mem_filesBelow]
  constructor
  · rintro ⟨id, hm, hdata⟩
    obtain ⟨-, habove, hne⟩ := mem_nodesBelow.mp hm
    exact ⟨habove, hne, id, tree.node? hm, hdata⟩
  · intro h
    obtain ⟨id, hnode, hdata⟩ := h.file
    have hnil : f.path ≠ [] := by
      intro he
      rw [he] at hnode
      cases hnode
    exact ⟨id, mem_nodesBelow.mpr ⟨mem_of_node? hnil hnode, h.above, h.strict⟩, hdata⟩

namespace Holds

/-- A census has no path twice. -/
theorem single (h : c.Holds (filesBelow d root)) (tree : d.Tree root) :
    ((c.committed ++ c.staged).map (·.path)).Nodup := by
  have hperm : (c.committed ++ c.staged).Perm (filesBelow d root) :=
    (List.perm_append_comm.trans (h.staged.append h.committed)).trans
      (List.filter_append_perm _ _)
  exact (hperm.map _).nodup_iff.mpr (DirectoryStore.tree_standing tree).single

theorem mem_staged (h : c.Holds (filesBelow d root)) (tree : d.Tree root) :
    f ∈ c.staged ↔ f.StandsBelow d root ∧ isStaged f.path = true := by
  rw [h.staged.mem_iff, List.mem_filter, mem_filesBelow_iff tree]

theorem mem_committed (h : c.Holds (filesBelow d root)) (tree : d.Tree root) :
    f ∈ c.committed ↔ f.StandsBelow d root ∧ ¬ isStaged f.path = true := by
  rw [h.committed.mem_iff, List.mem_filter, mem_filesBelow_iff tree, Bool.not_eq_true',
    Bool.not_eq_true]

end Holds

/-- A census of a directory tree of any shape is the end of a walk without a bound. It comes to one
just if the root and every directory below it can be opened; and then it has each file of the tree
once, with its length and its time, and no directory. A file is with the staged ones just if its own
name ends like theirs, which is to say that its whole path does. -/
theorem take_sees (tree : d.Tree root) :
    (∀ reply, Walk d [root] empty reply ↔ take d root = reply) ∧
    ((∃ c, take d root = .ok c) ↔
      ∀ p ∈ root :: d.subdirs root, d.find p = .ok (some .dir)) ∧
    ∀ c, take d root = .ok c →
      ((c.committed ++ c.staged).map (·.path)).Nodup ∧
      (∀ f, f ∈ c.staged ↔
        f.StandsBelow d root ∧ ∃ front stem, f.path = front ++ [stem ++ ".tmp"]) ∧
      (∀ f, f ∈ c.committed ↔
        f.StandsBelow d root ∧ ¬ ∃ front stem, f.path = front ++ [stem ++ ".tmp"]) ∧
      (∀ f, f ∈ c.staged ↔ f.StandsBelow d root ∧ ".tmp".toList <:+ written f.path) ∧
      ∀ f ∈ c.committed ++ c.staged, d.node? f.path ≠ some .dir := by
  refine ⟨fun _ => walk_iff tree, take_ok_iff tree, fun c h => ?_⟩
  have holds := take_holds tree h
  refine ⟨holds.single tree, fun f => ?_, fun f => ?_, fun f => ?_, fun f hf => ?_⟩
  · rw [holds.mem_staged tree, isStaged_iff_named]
    rfl
  · rw [holds.mem_committed tree, isStaged_iff_named]
    rfl
  · rw [holds.mem_staged tree, isStaged_iff_written]
    rfl
  · have stands : f.StandsBelow d root := by
      rcases List.mem_append.mp hf with hf | hf
      · exact ((holds.mem_committed tree).mp hf).1
      · exact ((holds.mem_staged tree).mp hf).1
    obtain ⟨id, hnode, -⟩ := stands.file
    rw [hnode]
    nofun

def thicket : Disk where
  nodes := [(["r"], .dir), (["r", "a.tmp"], .dir), (["r", "a.tmp", "b"], .dir),
    (["r", "a.tmp", "b", "k"], .file 0), (["r", "a.tmp", "b", ".tmp"], .file 1),
    (["r", "c"], .dir), (["s"], .file 0)]
  files := #[⟨⟨#[7, 7]⟩, 3⟩, ⟨⟨#[]⟩, 4⟩]
  now := 5

theorem thicket_tree (root : Path) : thicket.Tree root :=
  .of_nodes (by decide +kernel) (by decide +kernel) root

/-- The one file is staged, and the other is not for all that its directories are called. -/
theorem thicket_seen : thicket.Tree ["r"] ∧ ∃ c, take thicket ["r"] = .ok c ∧
    ((c.committed ++ c.staged).map (·.path)).Nodup ∧
    ⟨["r", "a.tmp", "b", ".tmp"], 0, 4⟩ ∈ c.staged ∧
    ⟨["r", "a.tmp", "b", "k"], 2, 3⟩ ∈ c.committed := by
  have fits : ∀ node ∈ thicket.nodes, Fits node.1 := by decide +kernel
  have openable : ∀ p ∈ ["r"] :: thicket.subdirs ["r"], thicket.find p = .ok (some .dir) := by
    intro p hp
    have hdir : (p, .dir) ∈ thicket.nodesBelow [] := by
      rcases List.mem_cons.mp hp with rfl | hp
      · decide +kernel
      · exact (nodesBelow_sublist thicket List.nil_prefix).subset (mem_subdirs.mp hp)
    exact find_ok_iff.mpr ⟨fits _ (mem_nodesBelow.mp hdir).1, (thicket_tree []).accessible hdir,
      (thicket_tree []).node? hdir⟩
  obtain ⟨-, counted, seen⟩ := take_sees (thicket_tree ["r"])
  obtain ⟨c, hc⟩ := counted.mpr openable
  obtain ⟨single, staged, committed, -⟩ := seen c hc
  have plain : isStaged ["r", "a.tmp", "b", "k"] = false := by decide
  refine ⟨thicket_tree ["r"], c, hc, single, (staged _).mpr ⟨?_, ["r", "a.tmp", "b"], "", rfl⟩,
    (committed _).mpr ⟨?_, ?_⟩⟩
  · exact ⟨⟨_, rfl⟩, by decide, 1, rfl, rfl, rfl⟩
  · exact ⟨⟨_, rfl⟩, by decide, 0, rfl, rfl, rfl⟩
  · intro named
    rw [(isStaged_iff_named _).mpr named] at plain
    cases plain

end Census

end ImageCache
