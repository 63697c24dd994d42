import ImageCache.Dialogue
import ImageCache.Proofs.DirectoryStore.AnyKey

namespace ImageCache

open Disk EntryPath

def Disk.openNode (p : Path) (d : Disk) : Except Fault OpenFile × Disk :=
  match d.find p with
  | .error e => (.error e, d)
  | .ok none => (.error (.system .noEntry), d)
  | .ok (some .dir) => (.ok ⟨.dir, 0⟩, d)
  | .ok (some (.file id)) => (.ok ⟨.file id, 0⟩, (touch id d).2)

inductive DiskQuery where
  | isDir (p : Path)
  | openNode (p : Path)
  | makeDir (p : Path)
  | createFile (p : Path)
  | rename (source target : Path)
  | removeFile (p : Path)

namespace DiskQuery

def Reply : DiskQuery → Type
  | isDir _ => Bool
  | openNode _ => Except Fault OpenFile
  | makeDir _ => Except Fault Unit
  | createFile _ => Except Fault FileId
  | rename _ _ => Except Fault Unit
  | removeFile _ => Except Fault Unit

def answer : (q : DiskQuery) → Disk → q.Reply × Disk
  | isDir p => fun d => (d.isDir p, d)
  | openNode p => Disk.openNode p
  | makeDir p => Disk.makeDir p
  | createFile p => Disk.createFile p
  | rename source target => Disk.rename source target
  | removeFile p => Disk.removeFile p

def paths : DiskQuery → List Path
  | isDir p => [p]
  | openNode p => [p]
  | makeDir p => [p]
  | createFile p => [p]
  | rename source target => [source, target]
  | removeFile p => [p]

/-- About paths strictly below the root. -/
def Within (root : Path) (q : DiskQuery) : Prop := ∀ p ∈ q.paths, Below root p

theorem within_one {root p : Path} {q : DiskQuery} (h : q.paths = [p]) (hp : Below root p) :
    q.Within root := by
  intro other ho
  rw [h, List.mem_singleton] at ho
  rwa [ho]

/-- About paths strictly below the root, or makes sure of the root or of a directory above it. -/
def Restoring (root : Path) (q : DiskQuery) : Prop :=
  q.Within root ∨ ∃ p, p <+: root ∧ (q = makeDir p ∨ q = isDir p)

end DiskQuery

section Programs

variable {Query : Type} {Reply : Query → Type} {α β : Type} {allowed more : Query → Prop}

/-- Whatever the replies, nothing is asked but what is allowed. -/
def Dialogue.Asks (allowed : Query → Prop) : Dialogue Query Reply α → Prop
  | .done _ => True
  | .ask q next => allowed q ∧ ∀ reply, (next reply).Asks allowed

theorem Dialogue.Asks.bind {p : Dialogue Query Reply α} {f : α → Dialogue Query Reply β}
    (hp : p.Asks allowed) (hf : ∀ a, (f a).Asks allowed) : (p >>= f).Asks allowed := by
  change (p.bind f).Asks allowed
  induction p with
  | done a => exact hf a
  | ask q next ih => exact ⟨hp.1, fun reply => ih reply (hp.2 reply)⟩

end Programs

/-- An operation on a disk that comes down to allowed queries. -/
def Confined {α : Type} (allowed : DiskQuery → Prop) (f : StateM Disk α) : Prop :=
  ∃ program : Dialogue DiskQuery DiskQuery.Reply α, program.Asks allowed ∧
    ∀ d, program.run DiskQuery.answer d = f d

namespace Confined

variable {α β : Type} {allowed : DiskQuery → Prop}

theorem pure (a : α) : Confined allowed (Pure.pure a : StateM Disk α) :=
  ⟨.done a, trivial, fun _ => rfl⟩

theorem query {q : DiskQuery} (h : allowed q) : Confined allowed (q.answer : StateM Disk q.Reply) :=
  ⟨.query q, ⟨h, fun _ => trivial⟩, fun _ => rfl⟩

theorem bind {f : StateM Disk α} {g : α → StateM Disk β} (hf : Confined allowed f)
    (hg : ∀ a, Confined allowed (g a)) : Confined allowed (f >>= g) := by
  obtain ⟨p, hp, hrun⟩ := hf
  choose next hnext hruns using hg
  refine ⟨p >>= next, hp.bind hnext, ?_⟩
  intro d
  rw [Dialogue.run_bind, hruns, hrun]
  rfl

end Confined

section Operations

variable {s : DirectoryStore} {key : String} {root p : Path} {allowed : DiskQuery → Prop}

/-- A look whether a directory is there decides the reply. -/
theorem isDir_confined (hp : allowed (.isDir p)) (e : Fault) : Confined allowed
    (do pure (if (← get).isDir p then .ok () else .error e) : StateM Disk (Except Fault Unit)) :=
  ⟨.ask (.isDir p) fun there : Bool => .done (if there then .ok () else .error e),
    ⟨hp, fun _ => trivial⟩, fun _ => rfl⟩

theorem makeDirsUp_confined {names : List String}
    (h : ∀ q, q <+: names.reverse → allowed (.makeDir q) ∧ allowed (.isDir q)) :
    Confined allowed (makeDirsUp names) := by
  induction names with
  | nil => exact .pure _
  | cons name above ih =>
    obtain ⟨hmake, hlook⟩ := h _ (List.prefix_refl _)
    have habove : above.reverse <+: (name :: above).reverse := by
      rw [List.reverse_cons]
      exact List.prefix_append _ _
    unfold makeDirsUp
    apply Confined.bind (.query hmake)
    intro reply
    cases reply with
    | ok _ => exact .pure _
    | error e =>
      by_cases hk : e.kind ≠ .notFound
      · dsimp only
        rw [if_pos hk]
        exact isDir_confined hlook e
      · dsimp only
        rw [if_neg hk]
        apply Confined.bind (ih fun q hq => h q (hq.trans habove))
        intro reply
        cases reply with
        | error e => exact .pure _
        | ok _ =>
          apply Confined.bind (.query hmake)
          intro reply
          cases reply with
          | ok _ => exact .pure _
          | error e => exact isDir_confined hlook e

theorem read_confined (h : resolve s.root key = .ok p) (hp : allowed (.openNode p)) :
    Confined allowed (s.read key) := by
  have hrun : s.read key = (do
      match ← (openNode p : StateM Disk (Except Fault OpenFile)) with
      | .ok f => pure (.ok (some f))
      | .error e => pure (if e.kind = .notFound then .ok none else .error e)) := by
    funext d
    rw [s.read_eq h]
    simp only [bind, StateT.bind, openNode]
    cases d.find p with
    | error e => rfl
    | ok found =>
      match found with
      | none => rfl
      | some .dir => rfl
      | some (.file id) => rfl
  rw [hrun]
  apply Confined.bind (.query hp)
  intro reply
  cases reply with
  | ok f => exact .pure _
  | error e => exact .pure _

theorem stage_confined (h : resolve s.root key = .ok p)
    (hup : ∀ q, q <+: p.dropLast → allowed (.makeDir q) ∧ allowed (.isDir q))
    (hs : allowed (.createFile (staging p))) : Confined allowed (s.stage key) := by
  unfold DirectoryStore.stage
  rw [h]
  apply Confined.bind (makeDirsUp_confined (by rwa [List.reverse_reverse]))
  intro reply
  cases reply with
  | error e => exact .pure _
  | ok _ =>
    apply Confined.bind (.query hs)
    intro reply
    cases reply with
    | ok id => exact .pure _
    | error e => exact .pure _

variable {w : StagedEntry}

theorem commit_confined (hr : allowed (.rename w.staging w.final))
    (hd : allowed (.removeFile w.staging)) : Confined allowed w.commit := by
  unfold StagedEntry.commit
  apply Confined.bind (.query hr)
  intro reply
  cases reply with
  | ok _ => exact .pure _
  | error e =>
    apply Confined.bind (.query hd)
    intro reply
    cases reply with
    | ok _ => exact .pure _
    | error left => exact .pure _

theorem abort_confined (hd : allowed (.removeFile w.staging)) : Confined allowed w.abort := by
  unfold StagedEntry.abort
  apply Confined.bind (.query hd)
  intro reply
  cases reply with
  | ok _ => exact .pure _
  | error e => exact .pure _

theorem discard_confined (hd : allowed (.removeFile w.staging)) : Confined allowed w.discard := by
  unfold StagedEntry.discard
  exact Confined.bind (.query hd) fun _ => .pure _

end Operations

section Outside

variable {root p q : Path} {d : Disk}

/-- What stands at a path and not below it is elsewhere than all below the root. -/
theorem not_prefix_outside (hp : Below root p) (hq : root <+: q → q = root) : ¬ p <+: q := by
  intro hpq
  have he := hq (hp.root_above.trans hpq)
  subst he
  exact hp.ne_root (hpq.eq_of_length_le hp.root_above.length_le)

theorem node?_relocated_outside {source target : Path} (hs : ¬ source <+: q) (ht : ¬ target <+: q) :
    ((d.unlink target).relocate source target).node? q = d.node? q := by
  have free : ∀ node ∈ (d.unlink target).nodes, node.1 ≠ target := fun node hm => by
    simpa using (List.mem_filter.mp hm).2
  have hne : q ≠ target := by
    rintro rfl
    exact ht (List.prefix_refl q)
  rw [node?, node?]
  split
  · rfl
  · rw [relocate, lookup_moved source free (fun hc => absurd hc ht), if_neg hne, if_neg hs, unlink]
    exact lookup_filter _ fun n => by simpa using hne

/-- A query about paths below the root leaves all names elsewhere. -/
theorem answer_outside {query : DiskQuery} (h : query.Within root) (d : Disk)
    (hq : root <+: q → q = root) : (query.answer d).2.node? q = d.node? q := by
  have elsewhere : ∀ p ∈ query.paths, ¬ p <+: q := fun p hp => not_prefix_outside (h p hp) hq
  have other : ∀ p ∈ query.paths, q ≠ p := by
    rintro p hp rfl
    exact elsewhere q hp (List.prefix_refl q)
  cases query with
  | isDir p => rfl
  | openNode p =>
    simp only [DiskQuery.answer, openNode]
    split
    · rfl
    · rfl
    · rfl
    · rw [node?, node?, (touch_alike _ d).nodes]
  | makeDir p =>
    simp only [DiskQuery.answer, makeDir]
    split
    · rfl
    · rfl
    · rw [node?_link, if_neg (other p (by simp [DiskQuery.paths])), Option.or_none]
  | createFile p =>
    cases hf : d.find p with
    | error e => simp only [DiskQuery.answer, createFile_error hf]
    | ok found =>
      cases found with
      | some n => simp only [DiskQuery.answer, createFile_taken hf]
      | none =>
        simp only [DiskQuery.answer, createFile_free hf]
        rw [node?_created, if_neg (other p (by simp [DiskQuery.paths])), Option.or_none]
  | rename source target =>
    simp only [DiskQuery.answer, rename]
    split
    · rfl
    · rfl
    · rfl
    · split
      · rfl
      · exact node?_relocated_outside (elsewhere _ (by simp [DiskQuery.paths]))
          (elsewhere _ (by simp [DiskQuery.paths]))
  | removeFile p =>
    have hp : p ≠ [] := (h p (by simp [DiskQuery.paths])).ne_nil
    simp only [DiskQuery.answer, removeFile]
    split
    · rfl
    · rfl
    · rfl
    · rw [node?_unlink d hp, if_neg (other p (by simp [DiskQuery.paths]))]

/-- Everywhere but below the root all is as it was, but that the root and what is above it may have
been made anew. -/
def Spared (root : Path) (d d' : Disk) : Prop := ∀ q, (root <+: q → q = root) →
  d'.node? q = d.node? q ∨ q <+: root ∧ d.node? q = none ∧ d'.node? q = some .dir

theorem Spared.trans {d d' d'' : Disk} (h : Spared root d d') (h' : Spared root d' d'') :
    Spared root d d'' := by
  intro q hq
  rcases h q hq with hsame | ⟨hp, hnone, hdir⟩
  · rw [← hsame]
    exact h' q hq
  · rcases h' q hq with hsame' | ⟨-, hnone', -⟩
    · exact .inr ⟨hp, hnone, hsame'.trans hdir⟩
    · rw [hdir] at hnone'
      cases hnone'

theorem answer_spares {query : DiskQuery} (h : query.Restoring root) (d : Disk) :
    Spared root d (query.answer d).2 := by
  intro q hq
  rcases h with hw | ⟨p, hp, rfl | rfl⟩
  · exact .inl (answer_outside hw d hq)
  · have made := makeDir_made p d
    by_cases hn : d.node? q = none
    · by_cases hn' : (makeDir p d).2.node? q = none
      · exact .inl (hn'.trans hn.symm)
      · obtain ⟨hdir, hqp, -⟩ := made.new q hn hn'
        exact .inr ⟨hqp.trans hp, hn, hdir⟩
    · exact .inl (made.kept q hn)
  · exact .inl rfl

/-- What every query keeps to, an operation keeps to that comes down to such queries. -/
theorem Confined.keeps {α : Type} {allowed : DiskQuery → Prop} {f : StateM Disk α}
    (h : Confined allowed f) {R : Disk → Disk → Prop} (refl : ∀ d, R d d)
    (trans : ∀ {d d' d''}, R d d' → R d' d'' → R d d'')
    (step : ∀ q d, allowed q → R d (q.answer d).2) (d : Disk) : R d (f d).2 := by
  obtain ⟨program, hasks, hrun⟩ := h
  rw [← hrun]
  clear hrun
  induction program generalizing d with
  | done a => exact refl d
  | ask q next ih => exact trans (step q d hasks.1) (ih _ _ (hasks.2 _))

end Outside

/-- Asks about paths strictly below the root only, and changes no name elsewhere. -/
structure Contained {α : Type} (root : Path) (f : StateM Disk α) : Prop where
  program : Confined (DiskQuery.Within root) f
  elsewhere : ∀ d q, (root <+: q → q = root) → (f d).2.node? q = d.node? q

/-- Asks about paths strictly below the root, or makes sure that the root is there, and changes no
other name elsewhere. -/
structure Anchored {α : Type} (root : Path) (f : StateM Disk α) : Prop where
  program : Confined (DiskQuery.Restoring root) f
  elsewhere : ∀ d, Spared root d (f d).2

/-- A writer as it is opened for a key, or after writes. -/
inductive WriterOf (s : DirectoryStore) (key : String) : StagedEntry → Prop
  | opened {d d' : Disk} {w : StagedEntry} (h : s.stage key d = (.ok (some w), d')) :
      WriterOf s key w
  | wrote {d d' : Disk} {w w' : StagedEntry} {bytes : ByteArray} {reply : Except Fault Nat}
      (before : WriterOf s key w) (h : StagedEntry.write bytes (w, d) = (reply, (w', d'))) :
      WriterOf s key w'

/-- Whatever is done with the writer is done below the root; what is written goes to its file, and
changes no name. -/
structure StagedEntry.Contained (root : Path) (w : StagedEntry) : Prop where
  commit : ImageCache.Contained root w.commit
  abort : ImageCache.Contained root w.abort
  discard : ImageCache.Contained root w.discard
  write : ∀ bytes d, (StagedEntry.write bytes (w, d)).2.2.nodes = d.nodes ∧
    ∀ id, w.file.node ≠ .file id → (StagedEntry.write bytes (w, d)).2.2.file id = d.file id

section Keys

variable {s : DirectoryStore} {key : String} {root p : Path} {d d' : Disk} {w w' : StagedEntry}

theorem Confined.contained {α : Type} {f : StateM Disk α} (h : Confined (DiskQuery.Within root) f) :
    Contained root f where
  program := h
  elsewhere d q hq := by
    apply h.keeps (R := fun d d' => d'.node? q = d.node? q)
    · intro d
      rfl
    · intro d d' d'' h h'
      exact h'.trans h
    · intro query d hw
      exact answer_outside hw d hq

theorem Confined.anchored {α : Type} {f : StateM Disk α}
    (h : Confined (DiskQuery.Restoring root) f) : Anchored root f where
  program := h
  elsewhere := h.keeps (fun _ _ _ => .inl rfl) Spared.trans fun _ d hq => answer_spares hq d

theorem write_nodes (bytes : ByteArray) (w : StagedEntry) (d : Disk) :
    (StagedEntry.write bytes (w, d)).2.2.nodes = d.nodes ∧
      ∀ id, w.file.node ≠ .file id → (StagedEntry.write bytes (w, d)).2.2.file id = d.file id := by
  simp only [StagedEntry.write, OpenFile.write]
  cases hn : w.file.node with
  | dir => exact ⟨rfl, fun _ _ => rfl⟩
  | file own =>
    by_cases hz : bytes.size = 0
    · simp [hz]
    · simp only [hz, if_false, stamp]
      refine ⟨rfl, fun id hid => ?_⟩
      rw [file_setFile, if_neg (by rintro ⟨rfl, -⟩; exact hid rfl)]
      rfl

theorem write_places {bytes : ByteArray} {reply : Except Fault Nat}
    (h : StagedEntry.write bytes (w, d) = (reply, (w', d'))) :
    w'.staging = w.staging ∧ w'.final = w.final := by
  cases h
  exact ⟨rfl, rfl⟩

/-- The file of a new writer stands at its staging path. -/
theorem stage_places (h : resolve s.root key = .ok p) (hs : s.stage key d = (.ok (some w), d')) :
    w.staging = staging p ∧ w.final = p ∧ d'.node? w.staging = some w.file.node := by
  cases s.stage_opening h hs with
  | opened made free =>
    refine ⟨rfl, rfl, ?_⟩
    rw [node?_created, (find_ok_iff.mp free).2.2, if_pos rfl]
    rfl

theorem WriterOf.accepted (h : WriterOf s key w) :
    ∃ p, resolve s.root key = .ok p ∧ w.staging = staging p ∧ w.final = p := by
  induction h with
  | @opened d d' w hs =>
    cases hr : resolve s.root key with
    | error e =>
      rw [s.stage_refused hr] at hs
      cases hs
    | ok p =>
      obtain ⟨hstaging, hfinal, -⟩ := stage_places hr hs
      exact ⟨p, rfl, hstaging, hfinal⟩
  | wrote before hw ih =>
    obtain ⟨p, hr, hstaging, hfinal⟩ := ih
    obtain ⟨hs', hf'⟩ := write_places hw
    exact ⟨p, hr, hs'.trans hstaging, hf'.trans hfinal⟩

theorem stage_anchored (s : DirectoryStore) (key : String) : Anchored s.root (s.stage key) := by
  apply Confined.anchored
  cases hr : resolve s.root key with
  | error e =>
    rw [s.stage_refused hr]
    exact .pure _
  | ok p =>
    have hp := resolve_below hr
    have hup : ∀ q, q <+: p.dropLast → Below s.root q ∨ q <+: s.root := by
      intro q hq
      have hqp := hq.trans (List.dropLast_prefix p)
      rcases List.prefix_or_prefix_of_prefix hp.root_above hqp with hroot | hq
      · rcases hp.between hroot hqp with rfl | hb
        · exact .inr (List.prefix_refl _)
        · exact .inl hb
      · exact .inr hq
    apply stage_confined hr
    · intro q hq
      rcases hup q hq with hb | hb
      · exact ⟨.inl (DiskQuery.within_one rfl hb), .inl (DiskQuery.within_one rfl hb)⟩
      · exact ⟨.inr ⟨q, hb, .inl rfl⟩, .inr ⟨q, hb, .inr rfl⟩⟩
    · exact .inl (DiskQuery.within_one rfl (staging_below hp))

theorem read_contained (s : DirectoryStore) (key : String) : Contained s.root (s.read key) := by
  apply Confined.contained
  cases hr : resolve s.root key with
  | error e =>
    rw [s.read_refused hr]
    exact .pure _
  | ok p => exact read_confined hr (DiskQuery.within_one rfl (resolve_below hr))

theorem WriterOf.contained (h : WriterOf s key w) : w.Contained s.root := by
  obtain ⟨p, hr, hstaging, hfinal⟩ := h.accepted
  have hf : Below s.root w.final := by
    rw [hfinal]
    exact resolve_below hr
  have hs : Below s.root w.staging := by
    rw [hstaging]
    exact staging_below (resolve_below hr)
  have hremove : DiskQuery.Within s.root (.removeFile w.staging) := DiskQuery.within_one rfl hs
  have hrename : DiskQuery.Within s.root (.rename w.staging w.final) := by
    simpa [DiskQuery.Within, DiskQuery.paths] using ⟨hs, hf⟩
  exact ⟨(commit_confined hrename hremove).contained, (abort_confined hremove).contained,
    (discard_confined hremove).contained, fun bytes d => write_nodes bytes w d⟩

/-- What is done for a key is done strictly below the root, or not at all. -/
theorem keys_stay_below (s : DirectoryStore) (key : String) :
    (¬ Below s.root (follow s.root (names key)) →
      ∃ e, s.read key = pure (.error e) ∧ s.stage key = pure (.error e)) ∧
    Contained s.root (s.read key) ∧ Anchored s.root (s.stage key) ∧
    (∀ d d' w, s.stage key d = (.ok (some w), d') →
      Below s.root w.staging ∧ d'.node? w.staging = some w.file.node) ∧
    ∀ w, WriterOf s key w → w.Contained s.root := by
  refine ⟨?_, read_contained s key, stage_anchored s key, ?_, fun w h => h.contained⟩
  · intro hout
    obtain ⟨e, he⟩ := EntryPath.resolve_refused hout
    exact ⟨e, s.read_refused he, s.stage_refused he⟩
  · intro d d' w hs
    obtain ⟨p, hr, hstaging, -⟩ := (WriterOf.opened hs).accepted
    obtain ⟨-, -, hnode⟩ := stage_places hr hs
    rw [hstaging]
    exact ⟨staging_below (resolve_below hr), by rwa [hstaging] at hnode⟩

end Keys

end ImageCache
