import ImageCache.Proofs.DirectoryStore.Containment
import ImageCache.Proofs.DirectoryStore.NestedKeys
import ImageCache.Proofs.DirectoryStore.Pruning

namespace ImageCache

open Disk EntryPath

namespace EntryPath

/-- No name in the key ends like that of a staged file. -/
def Unstaged (key : String) : Prop :=
  ∀ name ∈ names key, suffix.toList.isSuffixOf name.toList = false

instance (key : String) : Decidable (Unstaged key) :=
  inferInstanceAs (Decidable (∀ name ∈ names key, suffix.toList.isSuffixOf name.toList = false))

variable {root p q : Path} {key : String}

/-- Nothing on the way to the entry of such a key is named like a staged file. -/
theorem Unstaged.way (hu : Unstaged key) (h : resolve root key = .ok p) (hroot : root <+: q)
    (hq : q <+: p) (hne : q ≠ root) : isStaged q = false := by
  obtain ⟨rest, -, rfl, hrest⟩ := resolve_names h hu
  obtain ⟨front, rfl⟩ := hroot
  have hfront : front <+: rest := (List.prefix_append_right_inj root).mp hq
  rcases List.eq_nil_or_concat front with rfl | ⟨above, name, rfl⟩
  · simp at hne
  · rw [List.concat_eq_append] at hfront ⊢
    rw [← List.append_assoc, isStaged_append]
    exact hrest name (hfront.subset (by simp))

end EntryPath

namespace Disk

variable {root p : Path} {d d' : Disk}

/-- All that stands at a directory or below it stands in directories, and none of these is named
like a staged file. -/
structure Neat (root : Path) (d : Disk) : Prop where
  rooted : d.Rooted root
  staged : ∀ p, root <+: p → p ≠ root → isStaged p = true → d.node? p ≠ some .dir

/-- Somebody has changed a disk: what he left is a tree again, and under the names of staged files
stands nothing that did not stand there before. -/
structure Meddled (root : Path) (d d' : Disk) : Prop where
  rooted : d'.Rooted root
  staged : ∀ p, root <+: p → p ≠ root → isStaged p = true →
    d'.node? p = none ∨ d'.node? p = d.node? p

/-- As long as directories stay, what stands in them can be reached. -/
theorem rooted_of_kept (dirs : ∀ p, d.node? p = some .dir → d'.node? p = some .dir)
    (stood : ∀ p, root <+: p → d'.node? p ≠ none → d.Accessible p) : d'.Rooted root :=
  fun p hroot hp q hq hne => dirs q (stood p hroot hp q hq hne)

theorem unlink_absent (hp : p ≠ []) (h : d.node? p = none) : d.unlink p = d := by
  have hkeep : d.nodes.filter (fun node => decide (node.1 ≠ p)) = d.nodes := by
    refine List.filter_eq_self.mpr fun node hm => decide_eq_true ?_
    rintro rfl
    exact node?_ne_none hm h
  rw [unlink, hkeep]

theorem rename_error {source target : Path} {e : Fault}
    (h : rename source target d = (.error e, d')) : d' = d := by
  unfold rename at h
  split at h
  · exact (Prod.mk.inj h).2.symm
  · exact (Prod.mk.inj h).2.symm
  · exact (Prod.mk.inj h).2.symm
  · split at h
    · exact (Prod.mk.inj h).2.symm
    · cases h

namespace Neat

theorem same_nodes (h : d.Neat root) (nodes : d'.nodes = d.nodes) : d'.Neat root := by
  have hnode : ∀ q, d'.node? q = d.node? q := fun q => by rw [node?, node?, nodes]
  constructor
  · refine rooted_of_kept (fun q hq => by rw [hnode, hq]) fun q hroot hq => h.rooted q hroot ?_
    rwa [hnode] at hq
  · intro q hroot hne hs
    rw [hnode]
    exact h.staged q hroot hne hs

theorem thinned (h : d.Neat root) (ht : d.Thinned d') : d'.Neat root := by
  constructor
  · refine rooted_of_kept (fun q hq => ?_) fun q hroot hq => h.rooted q hroot ?_
    · rcases ht q with same | ⟨-, id, hfile⟩
      · rw [same, hq]
      · rw [hq] at hfile
        cases hfile
    · rcases ht q with same | ⟨gone, -⟩
      · rwa [same] at hq
      · exact absurd gone hq
  · intro q hroot hne hs hdir
    rcases ht q with same | ⟨gone, -⟩
    · exact h.staged q hroot hne hs (same ▸ hdir)
    · rw [gone] at hdir
      cases hdir

theorem meddled (h : d.Neat root) (hm : Meddled root d d') : d'.Neat root := by
  refine ⟨hm.rooted, fun q hroot hne hs hdir => ?_⟩
  rcases hm.staged q hroot hne hs with gone | same
  · rw [gone] at hdir
    cases hdir
  · exact h.staged q hroot hne hs (same ▸ hdir)

/-- The directories on the way to an entry can be made. -/
theorem made (h : d.Neat root) {key : String} (hu : Unstaged key) (hk : resolve root key = .ok p)
    (hm : Made p.dropLast d d') : d'.Neat root := by
  refine ⟨hm.rooted h.rooted, fun q hroot hne hs hdir => ?_⟩
  by_cases hn : d.node? q = none
  · obtain ⟨-, hq, -⟩ := hm.new q hn (by simp [hdir])
    rw [hu.way hk hroot (hq.trans (List.dropLast_prefix p)) hne] at hs
    cases hs
  · exact h.staged q hroot hne hs (by rw [← hm.kept q hn, hdir])

theorem created (h : d.Neat root) (hacc : d.Accessible p) : (d.created p).Neat root := by
  constructor
  · have hkept : ∀ q, d.node? q = some .dir → (d.created p).node? q = some .dir := by
      intro q hq
      rw [node?_created, hq, Option.some_or]
    refine rooted_of_kept hkept fun q hroot hq => ?_
    by_cases hn : d.node? q = none
    · rw [node?_created, hn, Option.none_or] at hq
      obtain rfl : q = p := Classical.byContradiction fun hne => hq (if_neg hne)
      exact hacc
    · exact h.rooted q hroot hn
  · intro q hroot hne hs hdir
    rw [node?_created] at hdir
    cases hn : d.node? q with
    | none =>
      rw [hn, Option.none_or] at hdir
      split at hdir <;> cases hdir
    | some n =>
      rw [hn, Option.some_or] at hdir
      exact h.staged q hroot hne hs (by rw [hn, hdir])

/-- A staged file can be moved to the place of its entry. -/
theorem moved (h : d.Neat root) {id : FileId} (below : Below root p)
    (hs : d.node? (staging p) = some (.file id)) (ht : d.node? p ≠ some .dir) :
    ((d.unlink p).relocate (staging p) p).Neat root := by
  have hsroot := (staging_below below).root_above
  have hnode := h.rooted.node?_moved hsroot below.root_above hs ht (staging_ne p)
  constructor
  · refine rooted_of_kept (d := d) (fun q hq => ?_) fun q hroot hq => ?_
    · have hqp : q ≠ p := by
        rintro rfl
        exact ht hq
      have hqs : q ≠ staging p := by
        rintro rfl
        rw [hq] at hs
        cases hs
      rw [hnode, if_neg hqp, if_neg hqs, hq]
    · by_cases hqp : q = p
      · rw [hqp]
        have hstaged := h.rooted _ hsroot (by simp [hs])
        exact DirectoryStore.accessible_staging.mp hstaged
      · rw [hnode, if_neg hqp] at hq
        refine h.rooted q hroot fun hnone => hq ?_
        rw [hnone, ite_self]
  · intro q hroot hne hstaged hdir
    rw [hnode] at hdir
    split at hdir
    · cases hdir
    · split at hdir
      · cases hdir
      · exact h.staged q hroot hne hstaged hdir

end Neat

end Disk

/-- A writer as it was opened: it stages beside an entry below the root, at a path that fits. -/
structure StagedEntry.Beside (root : Path) (w : StagedEntry) : Prop where
  below : Below root w.final
  stages : w.staging = EntryPath.staging w.final
  fits : Fits w.staging

def Finish.Uncommitted (how : Finish) (w : StagedEntry) (d : Disk) : Prop :=
  how = .commit → ∃ e, (w.commit d).1.1 = .error e

section Finishing

variable {root : Path} {d : Disk} {w : StagedEntry} {how : Finish}

/-- A writer that does not commit does no more than to remove what it has staged. -/
theorem Finish.Uncommitted.run (h : how.Uncommitted w d) :
    how.run w d = (removeFile w.staging d).2 := by
  cases how with
  | commit =>
    obtain ⟨e, he⟩ := h rfl
    rcases hr : rename w.staging w.final d with ⟨reply, d'⟩
    cases reply with
    | ok _ =>
      rw [DirectoryStore.commit_moved hr] at he
      cases he
    | error cause =>
      obtain rfl := rename_error hr
      exact DirectoryStore.commit_unmoved hr
  | abort => exact DirectoryStore.abort_disk w d
  | drop => exact DirectoryStore.discard_disk w d

namespace StagedEntry.Beside

theorem not_dir (b : w.Beside root) (h : d.Neat root) : d.node? w.staging ≠ some .dir := by
  have hbelow := staging_below b.below
  rw [b.stages]
  exact h.staged _ hbelow.root_above hbelow.ne_root (isStaged_staging _)

/-- What a writer has staged can be removed, and if it is gone nothing else is in its place. -/
theorem remove (b : w.Beside root) (h : d.Neat root) :
    (removeFile w.staging d).2 = d.unlink w.staging := by
  have hbelow := staging_below b.below
  rw [← b.stages] at hbelow
  cases hn : d.node? w.staging with
  | none =>
    rw [unlink_absent hbelow.ne_nil hn]
    cases hf : d.find w.staging with
    | error e => simp only [removeFile, hf]
    | ok found =>
      have hfound := (find_ok_iff.mp hf).2.2
      rw [hn] at hfound
      subst hfound
      simp only [removeFile, hf]
  | some n =>
    cases n with
    | dir => exact absurd hn (b.not_dir h)
    | file id =>
      have hacc := h.rooted _ hbelow.root_above (by simp [hn])
      rw [removeFile_file (find_ok_iff.mpr ⟨b.fits, hacc, hn⟩)]

theorem finish (b : w.Beside root) (h : d.Neat root) (how : Finish) : (how.run w d).Neat root := by
  have hdir := b.not_dir h
  cases how with
  | commit =>
    rw [Finish.run]
    rcases DirectoryStore.commit_cases hdir with hd | hd | ⟨id, hs, ht, hd⟩
    · rw [hd]
      exact h
    · rw [hd]
      exact h.thinned (unlink_thins hdir)
    · rw [b.stages] at hs hd
      rw [hd]
      exact h.moved b.below hs ht
  | abort =>
    rw [Finish.run, DirectoryStore.abort_disk]
    exact h.thinned (removeFile_thins _ d)
  | drop =>
    rw [Finish.run, DirectoryStore.discard_disk]
    exact h.thinned (removeFile_thins _ d)

end StagedEntry.Beside

end Finishing

/-- A disk in order, and writers that are as they were opened. -/
structure Usage.Neat (root : Path) (u : Usage) : Prop where
  disk : u.disk.Neat root
  beside : ∀ w ∈ u.live, w.entry.Beside root

namespace Usage.Neat

variable {s : DirectoryStore} {root : Path} {u : Usage} {d : Disk}

theorem stage (h : u.Neat s.root) {key : String} (hu : Unstaged key) :
    (u.step s (.stage key)).Neat s.root := by
  cases hk : resolve s.root key with
  | error e =>
    rw [Usage.step, s.stage_refused hk]
    exact h
  | ok p =>
    obtain ⟨⟨reply, d⟩, hs⟩ : ∃ out, s.stage key u.disk = out := ⟨_, rfl⟩
    rw [Usage.step, hs]
    cases s.stage_opening hk hs with
    | failed hm => exact ⟨h.disk.made hu hk hm, h.beside⟩
    | taken hm there => exact ⟨h.disk.made hu hk hm, h.beside⟩
    | opened hm free =>
      obtain ⟨fits, hacc, -⟩ := find_ok_iff.mp free
      refine ⟨(h.disk.made hu hk hm).created hacc, fun w hw => ?_⟩
      rcases List.mem_append.mp hw with hw | hw
      · exact h.beside w hw
      · rw [List.mem_singleton.mp hw]
        exact ⟨resolve_below hk, rfl, fits⟩

theorem write (h : u.Neat s.root) (i : Nat) (bytes : ByteArray) :
    (u.step s (.write i bytes)).Neat s.root := by
  rw [Usage.step]
  cases hw : u.live[i]? with
  | none => exact h
  | some w =>
    have hbeside := h.beside w (List.mem_of_getElem? hw)
    obtain ⟨hnodes, -⟩ := write_nodes bytes w.entry u.disk
    rcases hr : StagedEntry.write bytes (w.entry, u.disk) with ⟨reply, entry, d⟩
    rw [hr] at hnodes
    obtain ⟨hstaging, hfinal⟩ := write_places hr
    have hentry : entry.Beside s.root := by
      constructor
      · rw [hfinal]
        exact hbeside.below
      · rw [hstaging, hfinal, hbeside.stages]
      · rw [hstaging]
        exact hbeside.fits
    have hlive : ∀ written, ∀ w' ∈ u.live.set i ⟨entry, written⟩, w'.entry.Beside s.root := by
      intro written w' hw'
      rcases List.mem_or_eq_of_mem_set hw' with hw' | rfl
      · exact h.beside w' hw'
      · exact hentry
    dsimp only
    rw [hr]
    cases reply with
    | ok n => exact ⟨h.disk.same_nodes hnodes, hlive _⟩
    | error e => exact ⟨h.disk.same_nodes hnodes, hlive _⟩

theorem finish (h : u.Neat s.root) (how : Finish) (i : Nat) :
    (u.step s (.finish how i)).Neat s.root := by
  rw [Usage.step]
  cases hw : u.live[i]? with
  | none => exact h
  | some w =>
    have hbeside := h.beside w (List.mem_of_getElem? hw)
    exact ⟨hbeside.finish h.disk how, fun other ho => h.beside other (List.mem_of_mem_eraseIdx ho)⟩

/-- Every call leaves the disk in order, if its key has no name that files are staged under. -/
theorem step (h : u.Neat s.root) {call : KeyCall} (ho : call.Of {key | Unstaged key}) :
    (u.step s call).Neat s.root := by
  cases call with
  | stage key => exact h.stage ho
  | write i bytes => exact h.write i bytes
  | finish how i => exact h.finish how i
  | forget i => exact ⟨h.disk, fun other hw => h.beside other (List.mem_of_mem_eraseIdx hw)⟩
  | read key => exact ⟨h.disk.same_nodes (s.read_alike key u.disk).nodes, h.beside⟩
  | wait nanoseconds => exact ⟨h.disk.same_nodes rfl, h.beside⟩

end Usage.Neat

/-- What can become of a store that is in use, on a disk that others change too. -/
inductive Reached (s : DirectoryStore) : Usage → Prop
  | start {d : Disk} (neat : d.Neat s.root) : Reached s (.fresh d)
  | call {u : Usage} {call : KeyCall} (before : Reached s u) (of : call.Of {key | Unstaged key}) :
      Reached s (u.step s call)
  | flush {u : Usage} (before : Reached s u) : Reached s { u with disk := (s.prune u.disk).2 }
  | meddle {u : Usage} {d : Disk} (before : Reached s u) (meddled : Meddled s.root u.disk d) :
      Reached s { u with disk := d }

section Traceless

variable {s : DirectoryStore} {u : Usage} {w : Draft} {d : Disk} {p : Path} {key : String}

theorem Reached.neat (h : Reached s u) : u.Neat s.root := by
  induction h with
  | start neat => exact ⟨neat, by simp [Usage.fresh]⟩
  | call _ of ih => exact ih.step of
  | flush _ ih => exact ⟨ih.disk.thinned (s.prune_thins _), ih.beside⟩
  | meddle _ meddled ih => exact ⟨ih.disk.meddled meddled, ih.beside⟩

/-- Where nothing is staged for a key, no writer of it is turned away because of another. -/
theorem DirectoryStore.stage_free_of_absent (h : resolve s.root key = .ok p)
    (absent : d.node? (staging p) = none) : (s.stage key d).1 ≠ .ok none := by
  obtain ⟨⟨reply, d'⟩, hs⟩ : ∃ out, s.stage key d = out := ⟨_, rfl⟩
  rw [hs]
  cases s.stage_opening h hs with
  | failed made => nofun
  | opened made free => nofun
  | taken made there =>
    have hthere := (find_ok_iff.mp there).2.2
    obtain ⟨-, hway, -⟩ := made.new _ absent (by simp [hthere])
    exact absurd rfl (DirectoryStore.ne_staging hway)

/-- When a writer is aborted, dropped or cannot commit, its staged file is gone and nothing else is
changed: the entry stands as before, if there was one, and the key is free for another writer. -/
theorem uncommitted_traceless (h : Reached s u) (hw : w ∈ u.live) {how : Finish}
    (uncommitted : how.Uncommitted w.entry u.disk) :
    how.run w.entry u.disk = u.disk.unlink w.entry.staging ∧
      (how.run w.entry u.disk).node? w.entry.staging = none ∧
      (how.run w.entry u.disk).node? w.entry.final = u.disk.node? w.entry.final ∧
      (∀ p, p ≠ w.entry.staging → (how.run w.entry u.disk).node? p = u.disk.node? p) ∧
      (how.run w.entry u.disk).files = u.disk.files ∧
      ∀ key, resolve s.root key = .ok w.entry.final →
        (s.stage key (how.run w.entry u.disk)).1 ≠ .ok none := by
  have beside := h.neat.beside w hw
  have hrun : how.run w.entry u.disk = u.disk.unlink w.entry.staging := by
    rw [uncommitted.run]
    exact beside.remove h.neat.disk
  have hbelow := staging_below beside.below
  rw [← beside.stages] at hbelow
  have hnode := node?_unlink u.disk hbelow.ne_nil
  have hfinal : w.entry.final ≠ w.entry.staging := by
    rw [beside.stages]
    exact (staging_ne _).symm
  have hgone : (u.disk.unlink w.entry.staging).node? w.entry.staging = none := by
    rw [hnode, if_pos rfl]
  rw [hrun]
  refine ⟨rfl, hgone, ?_, fun p hp => ?_, rfl, fun key hk => ?_⟩
  · rw [hnode, if_neg hfinal]
  · rw [hnode, if_neg hp]
  · rw [beside.stages] at hgone ⊢
    exact s.stage_free_of_absent hk hgone

/-- Where nothing is below the root nothing is out of order. -/
theorem EmptyRoot.neat {root : Path} (h : EmptyRoot root d) : d.Neat root := by
  constructor
  · intro q hq hn
    obtain rfl : q = root := Classical.byContradiction fun hne => hn (h.nothing hq hne)
    exact (find_ok_iff.mp h.dir).2.1
  · intro q hq hne _ hdir
    rw [h.nothing hq hne] at hdir
    cases hdir

/-- While "k" is written, a directory with something in it comes to where the entry belongs. -/
def blocked : Disk where
  nodes := [(["k.tmp"], .file 0), (["k"], .dir), (["k", "inner"], .file 1)]
  files := #[⟨.empty, 1⟩, ⟨⟨#[120]⟩, 2⟩]
  now := 2

def blockedWriter : Draft := ⟨⟨⟨.file 0, 0⟩, ["k.tmp"], ["k"]⟩, .empty⟩

theorem blocked_reached : Reached topStore ⟨blocked, [blockedWriter], []⟩ := by
  have hkey : resolve topStore.root "k" = .ok ["k"] := by decide
  have free : blank.find ["k.tmp"] = .ok none :=
    find_ok_iff.mpr ⟨by decide, accessible_top rfl _, rfl⟩
  have hopen : topStore.stage "k" blank =
      (.ok (some blockedWriter.entry), blank.created ["k.tmp"]) :=
    topStore.stage_opens hkey rfl free
  have hstart : Reached topStore ⟨blank.created ["k.tmp"], [blockedWriter], []⟩ := by
    have hu : Unstaged "k" := by decide
    have hstep : Reached topStore ((Usage.fresh blank).step topStore (.stage "k")) :=
      .call (.start topStore_empty.neat) hu
    rw [Usage.step, Usage.fresh, hopen] at hstep
    exact hstep
  have tree : blocked.Tree topStore.root := .of_nodes (by decide +kernel) (by decide +kernel) _
  refine hstart.meddle ⟨tree.rooted, fun p _ hne hstaged => ?_⟩
  have hnames : ∀ node ∈ blocked.nodes, isStaged node.1 = true → node.1 = ["k.tmp"] := by
    decide +kernel
  cases hn : blocked.node? p with
  | none => exact .inl rfl
  | some n =>
    obtain rfl : p = ["k.tmp"] := hnames _ (mem_of_node? hne hn) hstaged
    exact .inr hn.symm

/-- The commit fails, the directory stays, and "k" can be written again. -/
theorem blocked_traceless :
    ∃ u w, Reached topStore u ∧ w ∈ u.live ∧ Finish.commit.Uncommitted w.entry u.disk ∧
      (Finish.commit.run w.entry u.disk).node? ["k.tmp"] = none ∧
      (Finish.commit.run w.entry u.disk).node? ["k"] = some .dir ∧
      (topStore.stage "k" (Finish.commit.run w.entry u.disk)).1 ≠ .ok none := by
  have hstaged : blocked.find ["k.tmp"] = .ok (some (.file 0)) :=
    find_ok_iff.mpr ⟨by decide, accessible_top rfl _, rfl⟩
  have hdir : blocked.find ["k"] = .ok (some .dir) :=
    find_ok_iff.mpr ⟨by decide, accessible_top rfl _, rfl⟩
  have hrename : rename ["k.tmp"] ["k"] blocked = (.error (.system .isADirectory), blocked) := by
    simp only [rename, hstaged, hdir, replaceable]
  have uncommitted : Finish.commit.Uncommitted blockedWriter.entry blocked := by
    intro _
    refine ⟨.system .isADirectory, ?_⟩
    simp only [blockedWriter, StagedEntry.commit, bind, StateT.bind, hrename]
    rw [removeFile_file hstaged]
    rfl
  obtain ⟨-, hgone, hentry, -, -, hfree⟩ :=
    uncommitted_traceless blocked_reached List.mem_cons_self uncommitted
  exact ⟨_, _, blocked_reached, List.mem_cons_self, uncommitted, hgone, hentry,
    hfree "k" (by decide)⟩

end Traceless

end ImageCache
