import ImageCache.Proofs.DirectoryStore.AnyKey
import ImageCache.Proofs.DirectoryStore.Writers
import ImageCache.Proofs.Reading.OpenFile
import ImageCache.Proofs.Reading.Window

namespace ImageCache

open Disk

abbrev Commits := List (String × ByteArray)

def Scene.commits (σ : Scene) : Act → Commits
  | .finish .commit i =>
    match σ.live[i]? with
    | none => []
    | some w =>
      match (w.entry.commit σ.disk).1.1 with
      | .ok () => [(w.key, w.written)]
      | .error _ => []
  | _ => []

/-- A reader that was handed out and is still open. -/
structure Loan where
  /-- What had last been committed under its key when it was handed out, if anything had. -/
  promised : Option ByteArray
  file : OpenFile
  /-- All that it gave since it was handed out, or since it was last rewound. -/
  given : ByteArray

def Loan.gave (loan : Loan) (bytes : ByteArray) (file : OpenFile) : Loan :=
  ⟨loan.promised, file, loan.given ++ bytes⟩

/-- A store in use: its scene, all that was committed, and the open readers in the order in which
they were handed out. -/
structure Lending where
  scene : Scene
  commits : Commits
  loans : List Loan

/-- An act of the store's users, or a call to one of the open readers, given by its place. -/
inductive Turn where
  | act (act : Act)
  | lend (identity tag : String)
  | read (i n : Nat)
  | rewind (i : Nat)
  | close (i : Nat)

namespace Lending

def step (s : DirectoryStore) (l : Lending) : Turn → Lending
  | .act act => ⟨l.scene.step s act, l.scene.commits act ++ l.commits, l.loans⟩
  | .lend identity tag =>
    match s.read (Key.diskKey identity tag) l.scene.disk with
    | (.ok (some file), d) =>
      ⟨{ l.scene with disk := d }, l.commits,
        l.loans ++ [⟨l.commits.lookup (Key.diskKey identity tag), file, .empty⟩]⟩
    | (_, d) => { l with scene := { l.scene with disk := d } }
  | .read i n =>
    match l.loans[i]? with
    | none => l
    | some loan =>
      match OpenFile.read n (loan.file, l.scene.disk) with
      | (.ok bytes, (file, d)) =>
        ⟨{ l.scene with disk := d }, l.commits, l.loans.set i (loan.gave bytes file)⟩
      | (.error _, (file, d)) =>
        ⟨{ l.scene with disk := d }, l.commits, l.loans.set i { loan with file }⟩
  | .rewind i =>
    match l.loans[i]? with
    | none => l
    | some loan =>
      match OpenFile.rewind (loan.file, l.scene.disk) with
      | (.ok (), (file, d)) =>
        ⟨{ l.scene with disk := d }, l.commits, l.loans.set i { loan with file, given := .empty }⟩
      | (.error _, (file, d)) =>
        ⟨{ l.scene with disk := d }, l.commits, l.loans.set i { loan with file }⟩
  | .close i => { l with loans := l.loans.eraseIdx i }

def run (s : DirectoryStore) (l : Lending) (turns : List Turn) : Lending := turns.foldl (step s) l

theorem run_append (s : DirectoryStore) (l : Lending) (turns more : List Turn) :
    l.run s (turns ++ more) = (l.run s turns).run s more := List.foldl_append

/-- No flush of the run meets a staged file of a live writer that is old enough to be removed. -/
def Calm (s : DirectoryStore) : Lending → List Turn → Prop
  | _, [] => True
  | l, turn :: rest =>
    (turn = .act .flush → ∀ w ∈ l.scene.live, ¬ Overdue s l.scene w) ∧ Calm s (l.step s turn) rest

theorem calm_append {s : DirectoryStore} {l : Lending} {turns more : List Turn} :
    Calm s l (turns ++ more) ↔ Calm s l turns ∧ Calm s (l.run s turns) more := by
  induction turns generalizing l with
  | nil => exact (and_iff_right trivial).symm
  | cons turn rest ih =>
    rw [List.cons_append, Calm, ih, ← and_assoc]
    rfl

end Lending

/-- What the reader gave is the front of these bytes, whatever it is asked for next follows in them,
and to its end it gives all the rest. -/
structure Loan.Yields (d : Disk) (loan : Loan) (bytes : ByteArray) : Prop where
  given : loan.given = bytes.extract 0 loan.given.size
  next : ∀ n, (OpenFile.read n (loan.file, d)).1 =
    .ok (bytes.extract loan.given.size (loan.given.size + n))
  rest : (OpenFile.reader.toReader.run Reading.toEnd (loan.file, d)).1 =
    .ok (bytes.extract loan.given.size bytes.size)

/-- A file with these bytes that no live writer has. -/
structure Scene.Still (σ : Scene) (id : FileId) (bytes : ByteArray) : Prop where
  stored : id < σ.disk.files.size
  bytes : (σ.disk.file id).bytes = bytes
  apart : ∀ w ∈ σ.live, w.id ≠ id

section Still

variable {s : DirectoryStore} {σ : Scene} {entries : Entries} {id : FileId} {bytes : ByteArray}

theorem Scene.Still.kept {d : Disk} {live : List Writer} (h : σ.Still id bytes)
    (size : σ.disk.files.size ≤ d.files.size) (same : (d.file id).bytes = (σ.disk.file id).bytes)
    (apart : ∀ w ∈ live, w.id ≠ id) : Scene.Still ⟨d, live⟩ id bytes :=
  ⟨Nat.lt_of_lt_of_le h.stored size, same.trans h.bytes, apart⟩

theorem Scene.Still.alike {d : Disk} (h : σ.Still id bytes) (ha : Alike σ.disk d) :
    Scene.Still ⟨d, σ.live⟩ id bytes :=
  h.kept (Nat.le_of_eq ha.size.symm) (ha.bytes id) h.apart

/-- Whatever is done next, the bytes of a file that no live writer has stay as they are, and no
writer comes to have it. -/
theorem Orderly.still_step (h : Orderly s σ entries) (hs : σ.Still id bytes) (act : Act) :
    (σ.step s act).Still id bytes := by
  cases act with
  | stage identity tag =>
    rcases h.stage_cases identity tag with hsame | ⟨d, hstep, hf, -⟩
    · rw [hsame]
      exact hs
    · rw [hstep]
      have hne : id ≠ σ.disk.files.size := Nat.ne_of_lt hs.stored
      refine hs.kept ?_ ?_ ?_
      · rw [hf, Array.size_push]
        exact Nat.le_succ _
      · rw [file_push hf, if_neg hne]
      · intro w hw
        rcases List.mem_append.mp hw with hold | hnew
        · exact hs.apart w hold
        · rw [List.mem_singleton.mp hnew, Writer.opened_id]
          exact hne.symm
  | write i more =>
    cases hw : σ.live[i]? with
    | none =>
      rw [Scene.step, hw]
      exact hs
    | some w =>
      obtain ⟨d, hstep, grows, -⟩ := h.write hw more
      have hapart := hs.apart w (List.mem_of_getElem? hw)
      rw [hstep]
      refine hs.kept (Nat.le_of_eq grows.size.symm) ?_ ?_
      · rw [grows.others id hapart.symm]
      · intro w' hw'
        rcases List.mem_or_eq_of_mem_set hw' with hold | rfl
        · exact hs.apart w' hold
        · rw [Writer.wrote_id]
          exact hapart
  | finish how i =>
    rw [Scene.step]
    cases hw : σ.live[i]? with
    | none => exact hs
    | some w =>
      have hf := (h.finish how hw).1
      refine hs.kept (by rw [hf]) (by rw [file, hf, file]) fun w' hw' => ?_
      exact hs.apart w' (List.mem_of_mem_eraseIdx hw')
  | forget i => exact ⟨hs.stored, hs.bytes, fun w hw => hs.apart w (List.mem_of_mem_eraseIdx hw)⟩
  | read identity tag => exact hs.alike (s.read_alike (Key.diskKey identity tag) σ.disk)
  | flush =>
    obtain ⟨d, gone, hstep, hf, -⟩ := h.flush
    rw [hstep]
    exact hs.kept (by rw [hf]) (by rw [file, hf, file]) hs.apart
  | wait nanoseconds => exact hs.alike ⟨rfl, rfl, fun _ => rfl⟩

/-- The file of an entry is still, as long as all live writers have theirs staged. -/
theorem Orderly.still_of_entry (h : Orderly s σ entries) (hs : ∀ w ∈ σ.live, Staged s σ.disk w)
    {key : String} (hk : PlainKey key) (hm : (key, id) ∈ entries) :
    σ.Still id (σ.disk.file id).bytes := by
  refine ⟨h.shelf.stored _ hm, rfl, ?_⟩
  rintro w hw rfl
  have hstaged := ((h.owns w hw).staged_iff h.shelf).mp (hs w hw)
  exact hk.ne_stagedName w.key (h.shelf.named_once hm hstaged)

end Still

/-- Under the name of a key stands what was last committed under it, or nothing. -/
def UpToDate (d : Disk) (entries : Entries) (commits : Commits) : Prop :=
  ∀ key id, PlainKey key → (key, id) ∈ entries → commits.lookup key = some (d.file id).bytes

namespace UpToDate

variable {s : DirectoryStore} {σ : Scene} {d d' : Disk} {entries entries' : Entries}
  {commits : Commits}

theorem nil (d : Disk) (commits : Commits) : UpToDate d [] commits :=
  fun _ _ _ hm => absurd hm List.not_mem_nil

/-- Entries may go, as long as those that stay keep their bytes. -/
theorem kept (h : UpToDate d entries commits)
    (hsub : ∀ key id, PlainKey key → (key, id) ∈ entries' → (key, id) ∈ entries)
    (hb : ∀ key id, PlainKey key → (key, id) ∈ entries → (d'.file id).bytes = (d.file id).bytes) :
    UpToDate d' entries' commits := by
  intro key id hk hm
  have hold := hsub key id hk hm
  rw [h key id hk hold, hb key id hk hold]

theorem same_files (h : UpToDate d entries commits)
    (hsub : ∀ key id, PlainKey key → (key, id) ∈ entries' → (key, id) ∈ entries)
    (hf : d'.files = d.files) : UpToDate d' entries' commits :=
  h.kept hsub fun _ _ _ _ => by rw [file, hf, file]

theorem alike (h : UpToDate d entries commits) (ha : Alike d d') : UpToDate d' entries commits :=
  h.kept (fun _ _ _ hm => hm) fun _ id _ _ => ha.bytes id

/-- What is staged for a key becomes its entry. -/
theorem publish {root : Path} (h : UpToDate d entries commits) (hs : Shelf root d entries)
    {key : String} {id : FileId} (hm : (stagedName key, id) ∈ entries) :
    UpToDate d (entries.renamed (stagedName key) key) ((key, (d.file id).bytes) :: commits) := by
  intro other oid ho hmem
  rcases Entries.mem_renamed.mp hmem with ⟨he, hm', -⟩ | ⟨hm', -, hne⟩
  · have hid : oid = id := hs.unique hm' hm
    have he : other = key := he
    rw [he, hid, List.lookup_cons_self]
  · have hbeq : (other == key) = false := beq_eq_false_iff_ne.mpr hne
    rw [List.lookup_cons, hbeq, h other oid ho hm']

/-- Whatever is done next, what the act commits brings the commits up to date again. -/
theorem step (h : UpToDate σ.disk entries commits) (ho : Orderly s σ entries)
    (hs : ∀ w ∈ σ.live, Staged s σ.disk w) (act : Act) : ∃ entries',
      Orderly s (σ.step s act) entries' ∧
        UpToDate (σ.step s act).disk entries' (σ.commits act ++ commits) := by
  have member : ∀ w ∈ σ.live, (stagedName w.key, w.id) ∈ entries := fun w hw =>
    ((ho.owns w hw).staged_iff ho.shelf).mp (hs w hw)
  cases act with
  | stage identity tag =>
    rcases ho.stage_cases identity tag with hsame | ⟨d, hstep, hf, ho'⟩
    · rw [hsame]
      exact ⟨entries, ho, h⟩
    · rw [hstep]
      refine ⟨_, ho', h.kept ?_ ?_⟩
      · intro key id hk hm
        rcases List.mem_append.mp hm with hold | hnew
        · exact hold
        · have hname := (Prod.mk.inj (List.mem_singleton.mp hnew)).1
          exact absurd hname (hk.ne_stagedName _)
      · intro key id hk hm
        rw [file_push hf, if_neg (Nat.ne_of_lt (ho.shelf.stored _ hm))]
  | write i bytes =>
    cases hw : σ.live[i]? with
    | none =>
      rw [Scene.step, hw]
      exact ⟨entries, ho, h⟩
    | some w =>
      obtain ⟨d, hstep, grows, ho'⟩ := ho.write hw bytes
      rw [hstep]
      refine ⟨entries, ho', h.kept (fun _ _ _ hm => hm) ?_⟩
      intro key id hk hm
      have hapart := (ho.still_of_entry hs hk hm).apart w (List.mem_of_getElem? hw)
      rw [grows.others id hapart.symm]
  | finish how i =>
    cases hw : σ.live[i]? with
    | none =>
      rw [Scene.step, hw]
      refine ⟨entries, ho, ?_⟩
      cases how with
      | commit =>
        rw [Scene.commits, hw]
        exact h
      | abort => exact h
      | drop => exact h
    | some w =>
      have hlive := List.mem_of_getElem? hw
      have hm := member w hlive
      obtain ⟨hf, ho'⟩ := ho.finish_staged how hw hm
      rw [Scene.step, hw]
      refine ⟨_, ho', ?_⟩
      cases how with
      | commit =>
        have hok := (ho.shows hlive hm).1
        rw [Scene.commits, hw]
        dsimp only
        rw [hok, ← (ho.owns w hlive).bytes]
        exact (h.publish ho.shelf hm).same_files (fun _ _ _ hm => hm) hf
      | abort => exact h.same_files (fun _ _ _ hm => (Entries.mem_without.mp hm).1) hf
      | drop => exact h.same_files (fun _ _ _ hm => (Entries.mem_without.mp hm).1) hf
  | forget i =>
    exact ⟨entries, ho.change (List.eraseIdx_sublist σ.live i) ho.shelf (Nat.le_refl _)
      (fun _ => rfl) fun _ _ hm => .inl hm, h⟩
  | read identity tag =>
    rw [Scene.step]
    generalize Key.diskKey identity tag = key
    have alike := s.read_alike key σ.disk
    exact ⟨entries, ho.alike alike, h.alike alike⟩
  | flush =>
    obtain ⟨d, gone, hstep, hf, ho', -⟩ := ho.flush
    rw [hstep]
    exact ⟨_, ho', h.same_files (fun _ _ _ hm => (List.mem_filter.mp hm).1) hf⟩
  | wait nanoseconds => exact ⟨entries, ho.alike ⟨rfl, rfl, fun _ => rfl⟩, h⟩

end UpToDate

/-- Whoever is given a reader is given the file of an entry, from its front. -/
theorem DirectoryStore.read_found {s : DirectoryStore} {d : Disk} {entries : Entries}
    {key : String} {file : OpenFile} (h : Shelf s.root d entries) (hk : PlainKey key)
    (hr : (s.read key d).1 = .ok (some file)) :
    ∃ id, (key, id) ∈ entries ∧ file = ⟨.file id, 0⟩ := by
  rw [s.read_eq (hk.resolve_eq s.root)] at hr
  cases hf : d.find (s.root ++ [key]) with
  | error e =>
    rw [hf] at hr
    dsimp only at hr
    split at hr <;> cases hr
  | ok found =>
    rw [hf] at hr
    match found with
    | none => cases hr
    | some (.file id) => exact ⟨id, h.mem_of_find hf, by simpa using hr.symm⟩
    | some .dir =>
      -- All that stands on a shelf are files.
      have hnode := (find_ok_iff.mp hf).2.2
      rw [h.node?_eq] at hnode
      obtain ⟨before, after, hsplit, -⟩ := List.lookup_eq_some_iff.mp hnode
      have hmem : (s.root ++ [key], Node.dir) ∈ entries.map (place s.root) := by
        rw [hsplit]
        exact List.mem_append_right _ List.mem_cons_self
      obtain ⟨entry, -, hplace⟩ := List.mem_map.mp hmem
      cases (Prod.mk.inj hplace).2

/-- The reader has a file that is still, with what was promised. -/
structure Loan.Kept (σ : Scene) (loan : Loan) (bytes : ByteArray) : Prop where
  promised : loan.promised = some bytes
  file : ∃ id, loan.file = ⟨.file id, loan.given.size⟩ ∧ σ.Still id bytes
  given : loan.given = bytes.extract 0 loan.given.size

namespace Loan.Kept

variable {s : DirectoryStore} {σ σ' : Scene} {entries : Entries} {loan : Loan} {bytes : ByteArray}

theorem moved (h : loan.Kept σ bytes)
    (hs : ∀ id, σ.Still id bytes → σ'.Still id bytes) : loan.Kept σ' bytes := by
  obtain ⟨id, hfile, still⟩ := h.file
  exact ⟨h.promised, ⟨id, hfile, hs id still⟩, h.given⟩

/-- A read gives what comes next, and the reader is kept. -/
theorem read (h : loan.Kept σ bytes) (n : Nat) : ∃ file,
    OpenFile.read n (loan.file, σ.disk) =
        (.ok (bytes.extract loan.given.size (loan.given.size + n)), (file, σ.disk)) ∧
      (loan.gave (bytes.extract loan.given.size (loan.given.size + n)) file).Kept σ bytes := by
  obtain ⟨id, hfile, still⟩ := h.file
  have hread : OpenFile.read n (loan.file, σ.disk) =
      (.ok (bytes.extract loan.given.size (loan.given.size + n)),
        (⟨.file id, loan.given.size + (bytes.extract loan.given.size
          (loan.given.size + n)).size⟩, σ.disk)) := by
    rw [hfile, ← still.bytes]
    rfl
  refine ⟨_, hread, h.promised, ⟨id, ?_, still⟩, ?_⟩
  · rw [Loan.gave, ByteArray.size_append]
  · have hall : loan.given ++ bytes.extract loan.given.size (loan.given.size + n) =
        bytes.extract 0 (loan.given.size + n) := by
      nth_rewrite 1 [h.given]
      rw [ByteArray.extract_append_extract, Nat.zero_min, Nat.max_eq_right (Nat.le_add_right _ _)]
    have htaken := extract_taken bytes 0 (loan.given.size + n)
    rw [Nat.zero_add] at htaken
    rw [Loan.gave, hall]
    exact htaken.symm

theorem yields (h : loan.Kept σ bytes) : loan.Yields σ.disk bytes where
  given := h.given
  next n := by
    obtain ⟨file, hread, -⟩ := h.read n
    rw [hread]
  rest := by
    obtain ⟨id, hfile, still⟩ := h.file
    have ahead : OpenFile.Ahead bytes (loan.file, σ.disk)
        (bytes.extract loan.given.size bytes.size) := by
      refine ⟨id, ?_, still.bytes, ?_⟩
      · rw [hfile]
      · rw [hfile]
    obtain ⟨s', hr, -⟩ := (OpenFile.mirrors bytes).replays.toEnd ahead
    rw [hr]

end Loan.Kept

structure Lending.Sound (s : DirectoryStore) (l : Lending) (entries : Entries) : Prop where
  orderly : Orderly s l.scene entries
  staged : ∀ w ∈ l.scene.live, Staged s l.scene.disk w
  upToDate : UpToDate l.scene.disk entries l.commits
  kept : ∀ loan ∈ l.loans, ∃ bytes, loan.Kept l.scene bytes

namespace Lending.Sound

variable {s : DirectoryStore} {l : Lending} {entries : Entries}

theorem act (h : l.Sound s entries) (act : Act)
    (calm : act = .flush → ∀ w ∈ l.scene.live, ¬ Overdue s l.scene w) :
    ∃ entries', (l.step s (.act act)).Sound s entries' := by
  obtain ⟨entries', ho, ha⟩ := h.upToDate.step h.orderly h.staged act
  refine ⟨entries', ho, h.orderly.staged_step h.staged act calm, ha, ?_⟩
  intro loan hl
  obtain ⟨bytes, hk⟩ := h.kept loan hl
  exact ⟨bytes, hk.moved fun id still => h.orderly.still_step still act⟩

theorem lend (h : l.Sound s entries) (identity tag : String) :
    (l.step s (.lend identity tag)).Sound s entries := by
  have hk := diskKey_plain identity tag
  rw [Lending.step]
  generalize Key.diskKey identity tag = key at hk ⊢
  have alike := s.read_alike key l.scene.disk
  have found : ∀ file, (s.read key l.scene.disk).1 = .ok (some file) →
      ∃ id, (key, id) ∈ entries ∧ file = ⟨.file id, 0⟩ :=
    fun file => s.read_found h.orderly.shelf hk
  obtain ⟨⟨reply, d⟩, hr⟩ : ∃ out, s.read key l.scene.disk = out := ⟨_, rfl⟩
  rw [hr] at alike found ⊢
  have orderly := h.orderly.alike alike
  have staged : ∀ w ∈ l.scene.live, Staged s d w := fun w hw =>
    h.orderly.keeps orderly hw hw rfl rfl id (h.staged w hw)
  have upToDate := h.upToDate.alike alike
  have kept : ∀ loan ∈ l.loans, ∃ bytes, loan.Kept { l.scene with disk := d } bytes := by
    intro loan hl
    obtain ⟨bytes, hkept⟩ := h.kept loan hl
    exact ⟨bytes, hkept.moved fun id still => still.alike alike⟩
  match reply with
  | .error e => exact ⟨orderly, staged, upToDate, kept⟩
  | .ok none => exact ⟨orderly, staged, upToDate, kept⟩
  | .ok (some file) =>
    refine ⟨orderly, staged, upToDate, ?_⟩
    intro loan hl
    rcases List.mem_append.mp hl with hold | hnew
    · exact kept loan hold
    · obtain ⟨id, hm, rfl⟩ := found file rfl
      have still := orderly.still_of_entry staged hk hm
      rw [List.mem_singleton.mp hnew]
      refine ⟨_, ?_, ⟨id, rfl, still⟩, ByteArray.extract_same.symm⟩
      exact upToDate key id hk hm

theorem read (h : l.Sound s entries) (i n : Nat) : (l.step s (.read i n)).Sound s entries := by
  rw [Lending.step]
  cases hl : l.loans[i]? with
  | none => exact h
  | some loan =>
    obtain ⟨bytes, hk⟩ := h.kept loan (List.mem_of_getElem? hl)
    obtain ⟨file, hread, hgave⟩ := hk.read n
    dsimp only
    rw [hread]
    refine ⟨h.orderly, h.staged, h.upToDate, ?_⟩
    intro other ho
    rcases List.mem_or_eq_of_mem_set ho with hold | rfl
    · exact h.kept other hold
    · exact ⟨bytes, hgave⟩

theorem rewind (h : l.Sound s entries) (i : Nat) : (l.step s (.rewind i)).Sound s entries := by
  rw [Lending.step]
  cases hl : l.loans[i]? with
  | none => exact h
  | some loan =>
    obtain ⟨bytes, hk⟩ := h.kept loan (List.mem_of_getElem? hl)
    obtain ⟨id, hfile, still⟩ := hk.file
    refine ⟨h.orderly, h.staged, h.upToDate, ?_⟩
    intro other ho
    rcases List.mem_or_eq_of_mem_set ho with hold | rfl
    · exact h.kept other hold
    · refine ⟨bytes, hk.promised, ⟨id, ?_, still⟩, ?_⟩
      · rw [hfile]
        rfl
      · exact ByteArray.extract_same.symm

theorem close (h : l.Sound s entries) (i : Nat) : (l.step s (.close i)).Sound s entries :=
  ⟨h.orderly, h.staged, h.upToDate, fun loan hl => h.kept loan (List.mem_of_mem_eraseIdx hl)⟩

theorem step (h : l.Sound s entries) (turn : Turn)
    (calm : turn = .act .flush → ∀ w ∈ l.scene.live, ¬ Overdue s l.scene w) :
    ∃ entries', (l.step s turn).Sound s entries' := by
  cases turn with
  | act act => exact h.act act fun he => calm (congrArg Turn.act he)
  | lend identity tag => exact ⟨entries, h.lend identity tag⟩
  | read i n => exact ⟨entries, h.read i n⟩
  | rewind i => exact ⟨entries, h.rewind i⟩
  | close i => exact ⟨entries, h.close i⟩

end Lending.Sound

theorem run_sound {s : DirectoryStore} {l : Lending} {entries : Entries} (h : l.Sound s entries)
    {turns : List Turn} (calm : Lending.Calm s l turns) :
    ∃ entries', (l.run s turns).Sound s entries' := by
  induction turns generalizing l entries with
  | nil => exact ⟨entries, h⟩
  | cons turn rest ih =>
    obtain ⟨entries', h'⟩ := h.step turn calm.1
    exact ih h' calm.2

def Lending.idle (d : Disk) (commits : Commits) : Lending := ⟨⟨d, []⟩, commits, []⟩

theorem sound_start {s : DirectoryStore} {d : Disk} {entries : Entries} {commits : Commits}
    (h : Shelf s.root d entries) (ha : UpToDate d entries commits) :
    (Lending.idle d commits).Sound s entries where
  orderly := ⟨h, by simp [Lending.idle], List.nodup_nil, by simp [Lending.idle]⟩
  staged := by simp [Lending.idle]
  upToDate := ha
  kept := by simp [Lending.idle]

def publishing (identity tag : String) (bytes : ByteArray) : List Turn :=
  [.act (.stage identity tag), .act (.write 0 bytes), .act (.finish .commit 0)]

/-- Where nobody is at work, a rendition that is published is entered. -/
theorem Orderly.publish {s : DirectoryStore} {d : Disk} {entries : Entries}
    (h : Orderly s ⟨d, []⟩ entries) (identity tag : String) (bytes : ByteArray)
    (hn : Nameable s.root (stagedName (Key.diskKey identity tag)))
    (hm : ∀ id, (stagedName (Key.diskKey identity tag), id) ∉ entries) (commits : Commits)
    (loans : List Loan) : ∃ d' entries',
      Lending.run s ⟨⟨d, []⟩, commits, loans⟩ (publishing identity tag bytes) =
        ⟨⟨d', []⟩, (Key.diskKey identity tag, bytes) :: commits, loans⟩ ∧
      Orderly s ⟨d', []⟩ entries' ∧ (Key.diskKey identity tag, d.files.size) ∈ entries' ∧
      ∀ id, (stagedName (Key.diskKey identity tag), id) ∉ entries' := by
  obtain ⟨d₁, hstage, -, -, h₁⟩ := h.stage_free identity tag hn hm
  obtain ⟨d₂, hwrite, -, h₂⟩ := h₁.write (i := 0) rfl bytes
  generalize hw : (Writer.opened s identity tag d.files.size).wrote s bytes = w at hwrite h₂
  have hkey : w.key = Key.diskKey identity tag := by
    rw [← hw]
    rfl
  have hid : w.id = d.files.size := by
    rw [← hw]
    rfl
  have hwritten : w.written = bytes := by
    rw [← hw]
    exact ByteArray.empty_append
  have hmem : (stagedName w.key, w.id) ∈ entries ++
      [(stagedName (Key.diskKey identity tag), d.files.size)] := by
    rw [hkey, hid]
    exact List.mem_append_right _ (List.mem_singleton_self _)
  generalize entries ++ [(stagedName (Key.diskKey identity tag), d.files.size)] = staged
    at h₂ hmem
  rw [← hkey, ← hid]
  have hne := (w.key_plain.ne_stagedName w.key).symm
  obtain ⟨-, h₃⟩ := h₂.finish_staged .commit (i := 0) rfl hmem
  have hok := (h₂.shows List.mem_cons_self hmem).1
  refine ⟨_, _, ?_, h₃, ?_, ?_⟩
  · rw [Lending.run, publishing, List.foldl_cons, Lending.step, hstage, List.foldl_cons,
      Lending.step]
    dsimp only
    rw [hwrite, List.foldl_cons, Lending.step, Scene.step, Scene.commits]
    dsimp only [List.nil_append, List.set_cons_zero, List.getElem?_cons_zero]
    rw [hok, hwritten]
    rfl
  · exact Entries.mem_renamed.mpr (.inl ⟨rfl, hmem, hne⟩)
  · intro id hc
    rcases Entries.mem_renamed.mp hc with ⟨he, -⟩ | ⟨-, hs, -⟩
    · exact hne he
    · exact hs rfl

/-- In a run over hashed keys in which no flush meets a live writer's staged file that is old enough
to be removed, every open reader gives just what had last been committed under its key when it was
handed out, from the front to the end, whatever is done in between. -/
theorem loans_kept (s : DirectoryStore) {d : Disk} {entries : Entries} {commits : Commits}
    (hd : Shelf s.root d entries) (ha : UpToDate d entries commits) {turns : List Turn}
    (calm : Lending.Calm s (.idle d commits) turns) :
    ∀ loan ∈ ((Lending.idle d commits).run s turns).loans, ∃ bytes,
      loan.promised = some bytes ∧
        loan.Yields ((Lending.idle d commits).run s turns).scene.disk bytes := by
  obtain ⟨entries', h⟩ := run_sound (sound_start hd ha) calm
  intro loan hl
  obtain ⟨bytes, hk⟩ := h.kept loan hl
  exact ⟨bytes, hk.promised, hk.yields⟩

def forgetful : DirectoryStore := ⟨[], 0, 600⟩

/-- A rendition is published and lent, a new version takes its place, and a flush prunes that one
too. -/
def replaced (identity tag : String) (old new : ByteArray) : List Turn :=
  publishing identity tag old ++ ([.lend identity tag, .read 0 1] ++
    (publishing identity tag new ++ [.act .flush]))

theorem forgetful_nameable (identity tag : String) :
    Nameable forgetful.root (stagedName (Key.diskKey identity tag)) :=
  patient_nameable identity tag

theorem replaced_loans (identity tag : String) (old new : ByteArray) :
    Lending.Calm forgetful (.idle .blank []) (replaced identity tag old new) ∧
      ∃ loan, ((Lending.idle .blank []).run forgetful (replaced identity tag old new)).loans =
        [loan] ∧ loan.promised = some old := by
  have hn := forgetful_nameable identity tag
  obtain ⟨d₁, e₁, hrun₁, h₁, hm₁, hfree₁⟩ :=
    (orderly_start (s := forgetful) patient_empty).publish identity tag old hn (by simp) [] []
  have hread := forgetful.read_some h₁.shelf (diskKey_plain identity tag) hm₁
  have h₂ := h₁.alike (touch_alike 0 d₁)
  obtain ⟨loan, hlent, hpromised⟩ : ∃ loan,
      Lending.run forgetful ⟨⟨d₁, []⟩, [(Key.diskKey identity tag, old)], []⟩
          [.lend identity tag, .read 0 1] =
        ⟨⟨(touch 0 d₁).2, []⟩, [(Key.diskKey identity tag, old)], [loan]⟩ ∧
      loan.promised = some old := by
    refine ⟨Loan.gave ⟨some old, ⟨.file 0, 0⟩, .empty⟩
      (((touch 0 d₁).2.file 0).bytes.extract 0 1)
      ⟨.file 0, 0 + (((touch 0 d₁).2.file 0).bytes.extract 0 1).size⟩, ?_, rfl⟩
    rw [Lending.run, List.foldl_cons, Lending.step]
    dsimp only
    rw [hread, List.lookup_cons_self]
    rfl
  obtain ⟨d₃, e₃, hrun₃, h₃, -, -⟩ := h₂.publish identity tag new hn hfree₁
    [(Key.diskKey identity tag, old)] [loan]
  obtain ⟨d₄, gone, hflush, -⟩ := h₃.flush
  refine ⟨?_, loan, ?_, hpromised⟩
  · rw [replaced, Lending.calm_append, Lending.calm_append, Lending.calm_append]
    refine ⟨⟨nofun, nofun, nofun, trivial⟩, ⟨nofun, nofun, trivial⟩, ⟨nofun, nofun, nofun, trivial⟩,
      fun _ w hw => ?_, trivial⟩
    rw [Lending.idle, hrun₁, hlent, hrun₃] at hw
    exact absurd hw List.not_mem_nil
  · rw [replaced, Lending.run_append, Lending.idle, hrun₁, Lending.run_append, hlent,
      Lending.run_append, hrun₃]
    rfl

def oldVersion : ByteArray := ⟨#[111, 110, 101]⟩

def newVersion : ByteArray := ⟨#[116, 119, 111]⟩

/-- The reader still gives what was published first, when nothing of it or of the version that
replaced it is left in the store. -/
theorem replaced_loan_kept : Shelf forgetful.root .blank [] ∧ UpToDate .blank [] [] ∧
    Lending.Calm forgetful (.idle .blank []) (replaced "url" "full" oldVersion newVersion) ∧
    ∃ loan ∈ ((Lending.idle .blank []).run forgetful
        (replaced "url" "full" oldVersion newVersion)).loans,
      loan.Yields ((Lending.idle .blank []).run forgetful
        (replaced "url" "full" oldVersion newVersion)).scene.disk oldVersion := by
  have shelf : Shelf forgetful.root .blank [] := EmptyRoot.shelf patient_empty
  obtain ⟨calm, loan, hloans, hpromised⟩ := replaced_loans "url" "full" oldVersion newVersion
  have hmem : loan ∈ ((Lending.idle .blank []).run forgetful
      (replaced "url" "full" oldVersion newVersion)).loans := by
    rw [hloans]
    exact List.mem_singleton_self loan
  obtain ⟨bytes, hbytes, yields⟩ := loans_kept forgetful shelf (.nil _ _) calm loan hmem
  rw [hpromised] at hbytes
  rw [← Option.some.inj hbytes] at yields
  exact ⟨shelf, .nil _ _, calm, loan, hmem, yields⟩

end ImageCache
