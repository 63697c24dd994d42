import ImageCache.Proofs.DirectoryStore.Operations
import ImageCache.Proofs.DirectoryStore.Resolution
import ImageCache.Proofs.Disk.MakeDirs

namespace ImageCache

open Disk EntryPath

namespace Disk

def created (d : Disk) (p : Path) : Disk :=
  ⟨d.nodes ++ [(p, .file d.files.size)], d.files.push ⟨.empty, d.now + 1⟩, d.now + 1⟩

variable {d : Disk} {p : Path}

theorem node?_created (d : Disk) (p q : Path) : (d.created p).node? q =
    (d.node? q).or (if q = p then some (.file d.files.size) else none) :=
  node?_link d p (.file d.files.size) q

theorem createFile_free (h : d.find p = .ok none) :
    createFile p d = (.ok d.files.size, d.created p) := by
  simp only [createFile, h]
  rfl

theorem createFile_taken {n : Node} (h : d.find p = .ok (some n)) :
    createFile p d = (.error (.system .exists), d) := by
  simp only [createFile, h]

theorem createFile_error {e : Fault} (h : d.find p = .error e) :
    createFile p d = (.error e, d) := by
  simp only [createFile, h]

theorem removeFile_file {id : FileId} (h : d.find p = .ok (some (.file id))) :
    removeFile p d = (.ok (), d.unlink p) := by
  simp only [removeFile, h]

theorem rename_file {source target : Path} {id : FileId} {there : Option Node}
    (hs : d.find source = .ok (some (.file id))) (ht : d.find target = .ok there)
    (hdir : there ≠ some .dir) :
    rename source target d = (.ok (), (d.unlink target).relocate source target) := by
  simp only [rename, hs, ht]
  cases there with
  | none => rfl
  | some n =>
    cases n with
    | dir => exact absurd rfl hdir
    | file _ => rfl

/-- No path is refused because something exists. -/
theorem find_error_kind {e : Fault} (h : d.find p = .error e) : e.kind ≠ .alreadyExists := by
  cases find_error h <;> nofun

/-- That nothing was found always has the same cause. -/
theorem find_notFound {e : Fault} (h : d.find p = .error e) (hk : e.kind = .notFound) :
    e = .system .noEntry := by
  cases find_error h with
  | nul => cases hk
  | size => cases hk
  | long => cases hk
  | file => cases hk
  | missing => rfl

end Disk

namespace DirectoryStore

variable {s : DirectoryStore} {key : String} {p : Path} {d d' : Disk}

theorem read_refused {e : Fault} (h : resolve s.root key = .error e) :
    s.read key = pure (.error e) := by
  unfold read
  rw [h]

theorem stage_refused {e : Fault} (h : resolve s.root key = .error e) :
    s.stage key = pure (.error e) := by
  unfold stage
  rw [h]

theorem read_eq (h : resolve s.root key = .ok p) (d : Disk) : s.read key d =
    match d.find p with
    | .ok (some .dir) => (.ok (some ⟨.dir, 0⟩), d)
    | .ok (some (.file id)) => (.ok (some ⟨.file id, 0⟩), (touch id d).2)
    | .ok none => (.ok none, d)
    | .error e => (if e.kind = .notFound then .ok none else .error e, d) := by
  simp only [read, h, bind, StateT.bind, get, getThe, MonadStateOf.get, StateT.get, pure]
  cases d.find p with
  | error e => rfl
  | ok found =>
    cases found with
    | none => rfl
    | some n =>
      cases n with
      | dir => rfl
      | file id => rfl

/-- What comes of asking for a writer of an entry. -/
inductive Opening (p : Path) (d : Disk) : Except Fault (Option StagedEntry) → Disk → Prop
  | failed {e : Fault} {d' : Disk} (made : Made p.dropLast d d') : Opening p d (.error e) d'
  | taken {n : Node} {d' : Disk} (made : Made p.dropLast d d')
      (there : d'.find (staging p) = .ok (some n)) : Opening p d (.ok none) d'
  | opened {d' : Disk} (made : Made p.dropLast d d')
      (free : d'.find (staging p) = .ok none) :
      Opening p d (.ok (some ⟨⟨.file d'.files.size, 0⟩, staging p, p⟩)) (d'.created (staging p))

theorem stage_opening (h : resolve s.root key = .ok p) {reply : Except Fault (Option StagedEntry)}
    (hs : s.stage key d = (reply, d')) : Opening p d reply d' := by
  suffices ho : Opening p d (s.stage key d).1 (s.stage key d).2 by
    rw [hs] at ho
    exact ho
  have hmade := makeDirs_made p.dropLast d
  simp only [stage, h, bind, StateT.bind]
  cases hm : makeDirs p.dropLast d with
  | mk reply d' =>
    rw [hm] at hmade
    dsimp only at hmade
    cases reply with
    | error e => exact .failed hmade
    | ok _ =>
      cases hf : d'.find (staging p) with
      | error e =>
        simp only [StateT.bind, createFile_error hf]
        change Opening p d (if e.kind = .alreadyExists then .ok none else .error e) d'
        rw [if_neg (find_error_kind hf)]
        exact .failed hmade
      | ok found =>
        cases found with
        | some n =>
          simp only [StateT.bind, createFile_taken hf]
          exact .taken hmade hf
        | none =>
          simp only [StateT.bind, createFile_free hf]
          exact .opened hmade hf

/-- What is strictly above a path is at or above its directory. -/
theorem prefix_dropLast {q : Path} (h : q <+: p) (hne : q ≠ p) : q <+: p.dropLast := by
  rcases List.eq_nil_or_concat p with rfl | ⟨front, name, rfl⟩
  · exact h
  · rw [List.concat_eq_append] at h hne ⊢
    rw [List.dropLast_concat]
    exact (List.prefix_concat_iff.mp h).resolve_left hne

/-- A staging path is not in the way to its own directory. -/
theorem ne_staging {q : Path} (h : q <+: p.dropLast) : q ≠ staging p := by
  rintro rfl
  have hlen := h.length_le
  simp [staging] at hlen

theorem accessible_staging : d.Accessible (staging p) ↔ d.Accessible p := by
  rw [accessible_iff, accessible_iff, staging_dropLast]

/-- Where directories can be made and nothing stands at the staging path a writer is to be had. -/
theorem stage_opens (h : resolve s.root key = .ok p) (hm : makeDirs p.dropLast d = (.ok (), d'))
    (free : d'.find (staging p) = .ok none) : s.stage key d =
      (.ok (some ⟨⟨.file d'.files.size, 0⟩, staging p, p⟩), d'.created (staging p)) := by
  simp only [stage, h, bind, StateT.bind, hm, createFile_free free]
  rfl

/-- Where something stands at the staging path already no writer is to be had. -/
theorem stage_conflict (h : resolve s.root key = .ok p) {n : Node}
    (hf : d.find (staging p) = .ok (some n)) : s.stage key d = (.ok none, d) := by
  obtain ⟨fits, hacc, -⟩ := find_ok_iff.mp hf
  have hup : p.dropLast <+: staging p := List.prefix_append _ _
  have hdirs := accessible_iff.mp (accessible_staging.mp hacc)
  have hdir : d.find p.dropLast = .ok (some .dir) :=
    find_ok_iff.mpr ⟨fits.above hup, fun q hq _ => hdirs q hq, hdirs _ (List.prefix_refl _)⟩
  simp only [stage, h, bind, StateT.bind, makeDirs_existing hdir, createFile_taken hf, Fault.kind,
    SystemFault.kind]
  rfl

section Committing

variable {w : StagedEntry}

theorem commit_moved (h : rename w.staging w.final d = (.ok (), d')) :
    w.commit d = ((.ok (), none), d') := by
  simp only [StagedEntry.commit, bind, StateT.bind, h]
  rfl

theorem commit_unmoved {e : Fault} (h : rename w.staging w.final d = (.error e, d)) :
    (w.commit d).2 = (removeFile w.staging d).2 := by
  simp only [StagedEntry.commit, bind, StateT.bind, h]
  cases removeFile w.staging d with
  | mk reply d' =>
    cases reply with
    | ok _ => rfl
    | error left => rfl

/-- Unless a directory stands at its staging path, to commit a writer moves the staged file, removes
it or does nothing. -/
theorem commit_cases (h : d.node? w.staging ≠ some .dir) :
    (w.commit d).2 = d ∨ (w.commit d).2 = d.unlink w.staging ∨
      ∃ id, d.node? w.staging = some (.file id) ∧ d.node? w.final ≠ some .dir ∧
        (w.commit d).2 = (d.unlink w.final).relocate w.staging w.final := by
  cases hs : d.find w.staging with
  | error e =>
    rw [commit_unmoved (e := e) (by simp only [rename, hs])]
    simp only [removeFile, hs, true_or]
  | ok found =>
    have hfound := (find_ok_iff.mp hs).2.2
    cases found with
    | none =>
      rw [commit_unmoved (e := .system .noEntry) (by simp only [rename, hs])]
      simp only [removeFile, hs, true_or]
    | some n =>
      cases n with
      | dir => exact absurd hfound h
      | file id =>
        have hremove : (removeFile w.staging d).2 = d.unlink w.staging := by
          rw [removeFile_file hs]
        cases ht : d.find w.final with
        | error e =>
          rw [commit_unmoved (e := e) (by simp only [rename, hs, ht]), hremove]
          exact .inr (.inl rfl)
        | ok there =>
          have hthere := (find_ok_iff.mp ht).2.2
          by_cases hdir : there = some .dir
          · subst hdir
            rw [commit_unmoved (e := .system .isADirectory) (by simp only [rename, hs, ht]; rfl),
              hremove]
            exact .inr (.inl rfl)
          · refine .inr (.inr ⟨id, hfound, by rwa [hthere], ?_⟩)
            rw [commit_moved (rename_file hs ht hdir)]

end Committing

end DirectoryStore

end ImageCache
