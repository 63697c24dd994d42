import ImageCache.Proofs.DirectoryStore.Collision
import ImageCache.Proofs.DirectoryStore.Usage

namespace ImageCache

open Disk EntryPath

def entryPaths (root : Path) (K : Set String) : Set Path :=
  {p | ∃ key ∈ K, resolve root key = .ok p}

/-- Whatever has been asked of the store, a reader of a key is given the bytes last committed to its
path, and none if there are none. -/
def ReadsFindCommits (s : DirectoryStore) (K : Set String) (d : Disk) : Prop :=
  ∀ calls : List KeyCall, (∀ call ∈ calls, call.Of K) → ∀ key ∈ K, ∀ p,
    resolve s.root key = .ok p →
      s.readOut key ((Usage.fresh d).run s calls).disk =
        .ok (((Usage.fresh d).run s calls).commits.lookup p)

section Absence

variable {s : DirectoryStore} {key : String} {p : Path} {d : Disk}

/-- Nothing stands at the path, and that is no fault. -/
def Disk.Absent (d : Disk) (p : Path) : Prop :=
  d.find p = .ok none ∨ d.find p = .error (.system .noEntry)

theorem readOut_given (f : OpenFile) (d : Disk) :
    (OpenFile.reader.toReader.run Reading.toEnd (f, d)).1.map some ≠ .ok none := by
  cases (OpenFile.reader.toReader.run Reading.toEnd (f, d)).1 with
  | ok bytes => nofun
  | error e => nofun

theorem absent_of_readOut (hk : resolve s.root key = .ok p) (h : s.readOut key d = .ok none) :
    d.Absent p := by
  unfold DirectoryStore.readOut at h
  rw [s.read_eq hk] at h
  cases hf : d.find p with
  | error e =>
    rw [hf] at h
    dsimp only at h
    by_cases hkind : e.kind = .notFound
    · rw [find_notFound hf hkind] at hf
      exact .inr hf
    · rw [if_neg hkind] at h
      cases h
  | ok found =>
    rw [hf] at h
    cases found with
    | none => exact .inl hf
    | some n =>
      cases n with
      | dir =>
        dsimp only at h
        exact absurd h (readOut_given _ _)
      | file id =>
        dsimp only at h
        exact absurd h (readOut_given _ _)

/-- A path where nothing is found has no NUL in it and is not too long as a whole. -/
theorem Disk.Absent.size (h : d.Absent p) :
    p.any (·.contains '\x00') = false ∧ pathSize p ≤ pathLimit := by
  rcases h with h | h
  · obtain ⟨fits, -, -⟩ := find_ok_iff.mp h
    exact ⟨fits.nul, fits.size⟩
  · unfold find at h
    split at h
    · cases h
    · rename_i hnul
      split at h
      · cases h
      · rename_i hsize
        exact ⟨by simpa using hnul, Nat.not_lt.mp hsize⟩

/-- On the way to a path where nothing is found there is a first place where nothing is. -/
theorem Disk.Absent.front (h : d.Absent p) : ∃ front, front <+: p ∧ d.node? front = none ∧
    d.Accessible front ∧ ∀ name ∈ front, name.utf8ByteSize ≤ nameLimit := by
  rcases h with h | h
  · obtain ⟨fits, hacc, hnone⟩ := find_ok_iff.mp h
    exact ⟨p, List.prefix_refl p, hnone, hacc, fits.names⟩
  · cases find_error h with
    | missing parts more way short hnone =>
      exact ⟨_, ⟨_, parts.symm⟩, hnone, way, short⟩

end Absence

section Opening

variable {s : DirectoryStore} {key : String} {K : Set String} {p q front more : Path} {d d' : Disk}

/-- Opening a writer leaves what there is after directories were made for it. -/
theorem stage_after (hk : resolve s.root key = .ok q) {n : Node}
    (h : (makeDirs q.dropLast d).2.node? p = some n) : (s.stage key d).2.node? p = some n := by
  simp only [DirectoryStore.stage, hk, bind, StateT.bind]
  cases hm : makeDirs q.dropLast d with
  | mk reply d' =>
    rw [hm] at h
    cases reply with
    | error e => exact h
    | ok _ =>
      dsimp only at h
      cases hf : d'.find (staging q) with
      | error e =>
        simp only [StateT.bind, createFile_error hf]
        exact h
      | ok found =>
        cases found with
        | some _ =>
          simp only [StateT.bind, createFile_taken hf]
          exact h
        | none =>
          simp only [StateT.bind, createFile_free hf]
          change (d'.created (staging q)).node? p = some n
          rw [node?_created, h]
          rfl

theorem EmptyRoot.clear {root : Path} (h : EmptyRoot root d) (hp : root <+: p) : d.Clear p := by
  intro q hq id hfile
  rcases List.prefix_or_prefix_of_prefix hp hq with hroot | hup
  · by_cases he : q = root
    · rw [he, h.base (List.prefix_refl root)] at hfile
      cases hfile
    · rw [h.nothing hroot he] at hfile
      cases hfile
  · rw [h.base hup] at hfile
    cases hfile

namespace ReadsFindCommits

theorem absent (h : ReadsFindCommits s K d) (hkey : key ∈ K) (hk : resolve s.root key = .ok p) :
    d.Absent p := by
  apply absent_of_readOut hk
  exact h [] (by simp) key hkey p hk

/-- As long as nothing is committed nothing is found, also after a writer was opened. -/
theorem absent_staged (h : ReadsFindCommits s K d) (hkey : key ∈ K)
    (hk : resolve s.root key = .ok p) {other : String} (ho : other ∈ K) :
    (s.stage other d).2.Absent p := by
  have hread := h [.stage other] (by simpa [KeyCall.Of] using ho) key hkey p hk
  have hstep : ((Usage.fresh d).run s [.stage other]).disk = (s.stage other d).2 ∧
      ((Usage.fresh d).run s [.stage other]).commits = [] := by
    simp only [Usage.run, List.foldl_cons, List.foldl_nil, Usage.step, Usage.fresh]
    cases s.stage other d with
    | mk reply d' =>
      cases reply with
      | error e => exact ⟨rfl, rfl⟩
      | ok entry =>
        cases entry with
        | none => exact ⟨rfl, rfl⟩
        | some entry => exact ⟨rfl, rfl⟩
  rw [hstep.1, hstep.2] at hread
  exact absent_of_readOut hk hread

variable (hroot : EmptyRoot s.root d)

include hroot

/-- The path of a key fits, for all of it that fits is made when a writer is opened, and then the
next name would be one too long. -/
theorem fits (h : ReadsFindCommits s K d) (hkey : key ∈ K) (hk : resolve s.root key = .ok p) :
    Fits p := by
  obtain ⟨nul, size⟩ := (h.absent hkey hk).size
  have hclear := hroot.clear (resolve_below hk).root_above
  suffices hshort : ∀ front, front <+: p → ∀ name ∈ front, name.utf8ByteSize ≤ nameLimit from
    ⟨nul, size, hshort p (List.prefix_refl p)⟩
  intro front
  induction front using List.reverseRecOn with
  | nil => simp
  | append_singleton front name ih =>
    intro hnext
    have hfront := (List.prefix_append front [name]).trans hnext
    have hshort := ih hfront
    have hfits : Fits front :=
      ⟨nul_above nul hfront, Nat.le_trans (pathSize_le hfront) size, hshort⟩
    obtain ⟨more, hmore⟩ : front <+: p.dropLast := by
      apply DirectoryStore.prefix_dropLast hfront
      rintro rfl
      have hlen := hnext.length_le
      simp at hlen
    have hdir : ∀ x, x <+: front → (s.stage key d).2.node? x = some .dir := by
      intro x hx
      have hup := List.dropLast_prefix p
      apply stage_after hk
      rw [← hmore] at hup ⊢
      exact makeDirs_front hfits (fun x hx => hclear x (hx.trans hfront)) (nul_above nul hup)
        (Nat.le_trans (pathSize_le hup) size) x hx
    obtain ⟨first, hfirst, hnone, -, hnames⟩ := (h.absent_staged hkey hk hkey).front
    have hon : front ++ [name] <+: first := by
      rcases List.prefix_or_prefix_of_prefix hnext hfirst with hon | hup
      · exact hon
      · rcases List.prefix_concat_iff.mp hup with rfl | hup
        · exact List.prefix_refl _
        · rw [hdir first hup] at hnone
          cases hnone
    intro other hm
    exact hnames other (hon.subset hm)

/-- Directories can be made above every entry. -/
theorem directories (h : ReadsFindCommits s K d) (hkey : key ∈ K)
    (hk : resolve s.root key = .ok q) : ∃ d', makeDirs q.dropLast d = (.ok (), d') ∧
      ∀ x, x <+: q.dropLast → d'.node? x = some .dir := by
  have hup := List.dropLast_prefix q
  have hclear := hroot.clear (resolve_below hk).root_above
  have hok := makeDirs_ok ((h.fits hroot hkey hk).above hup) fun x hx => hclear x (hx.trans hup)
  cases hm : makeDirs q.dropLast d with
  | mk reply d' =>
    rw [hm] at hok
    cases hok
    exact ⟨d', rfl, (makeDirs_ready hm).2⟩

/-- No entry is above another, or it would be a directory for the other's writer. -/
theorem apart (h : ReadsFindCommits s K d) (hkey : key ∈ K) (hk : resolve s.root key = .ok p)
    {other : String} (ho : other ∈ K) (hq : resolve s.root other = .ok q) (hpq : p <+: q) :
    p = q := by
  apply Classical.byContradiction
  intro hne
  have hup := DirectoryStore.prefix_dropLast hpq hne
  obtain ⟨d', hm, hdirs⟩ := h.directories hroot ho hq
  obtain ⟨first, hfirst, hnone, -⟩ := (h.absent_staged hkey hk ho).front
  have hdir : (s.stage other d).2.node? first = some .dir := by
    apply stage_after hq
    rw [hm]
    exact hdirs first (hfirst.trans hup)
  rw [hdir] at hnone
  cases hnone

/-- No entry is where another is staged or below it, or the staged file would be found or be in the
way. -/
theorem unstaged (h : ReadsFindCommits s K d) (hkey : key ∈ K) (hk : resolve s.root key = .ok p)
    {other : String} (ho : other ∈ K) (hq : resolve s.root other = .ok q) :
    ¬ staging q <+: p := by
  intro hqp
  have hstaging := staging_below (resolve_below hq)
  obtain ⟨d', hm, hdirs⟩ := h.directories hroot ho hq
  have habove : d'.Accessible (staging q) :=
    DirectoryStore.accessible_staging.mpr (accessible_iff.mpr hdirs)
  have hfree : d'.node? (staging q) = none := by
    have hmade := makeDirs_made q.dropLast d
    rw [hm] at hmade
    apply Classical.byContradiction
    intro hnew
    have hup := (hmade.new _ (hroot.nothing hstaging.root_above hstaging.ne_root) hnew).2.1
    exact DirectoryStore.ne_staging hup rfl
  have hfind := find_ok_iff.mpr ⟨(h.fits hroot hkey hk).above hqp, habove, hfree⟩
  have hmakes := congrArg Prod.snd (s.stage_opens hq hm hfind)
  have hfile : (s.stage other d).2.node? (staging q) = some (.file d'.files.size) := by
    rw [hmakes, node?_created, hfree, if_pos rfl]
    rfl
  obtain ⟨first, hfirst, hnone, hway, -⟩ := (h.absent_staged hkey hk ho).front
  rcases List.prefix_or_prefix_of_prefix hqp hfirst with hon | hup
  · by_cases he : staging q = first
    · rw [← he, hfile] at hnone
      cases hnone
    · have hdir := hway _ hon he
      rw [hfile] at hdir
      cases hdir
  · by_cases he : first = staging q
    · rw [he, hfile] at hnone
      cases hnone
    · rw [hmakes, node?_created, habove first hup he] at hnone
      cases hnone

end ReadsFindCommits

/-- Reads find just what was committed if and only if no key is in the way of another. -/
theorem reads_find_commits_iff (hroot : EmptyRoot s.root d) (K : Set String) :
    ReadsFindCommits s K d ↔ Compatible s.root (entryPaths s.root K) := by
  constructor
  · intro h
    constructor
    · rintro p ⟨key, -, hk⟩
      exact resolve_below hk
    · rintro p ⟨key, hkey, hk⟩
      exact h.fits hroot hkey hk
    · rintro p ⟨key, hkey, hk⟩ q ⟨other, ho, hq⟩ hpq
      exact h.apart hroot hkey hk ho hq hpq
    · rintro p ⟨key, hkey, hk⟩ q ⟨other, ho, hq⟩
      exact h.unstaged hroot hkey hk ho hq
  · intro hc calls ho key hkey p hk
    have hK : ∀ key ∈ K, ∀ p, resolve s.root key = .ok p → p ∈ entryPaths s.root K :=
      fun key hkey p hk => ⟨key, hkey, hk⟩
    have htidy := run_tidy (hroot.tidy hc) hc hK calls ho
    exact htidy.arranged.reads hc hk (hK key hkey p hk)

end Opening

theorem topStore_empty : EmptyRoot topStore.root blank := ⟨rfl, by simp [blank]⟩

/-- Where a writer is open for a key that leads on through the path of another, a reader of the
other is given a directory, which it cannot read. -/
theorem directory_read : resolve topStore.root "a" = .ok ["a"] ∧
    resolve topStore.root "a/b" = .ok ["a", "b"] ∧
    topStore.readOut "a" (topStore.stage "a/b" blank).2 = .error (.system .isADirectory) ∧
    ¬ ReadsFindCommits topStore {"a", "a/b"} blank := by
  have hkey : resolve topStore.root "a" = .ok ["a"] := by decide
  have hother : resolve topStore.root "a/b" = .ok ["a", "b"] := by decide
  have fits : Fits ["a"] := by decide
  have hclear : blank.Clear ["a"] := topStore_empty.clear List.nil_prefix
  have hdir : (topStore.stage "a/b" blank).2.node? ["a"] = some .dir :=
    stage_after hother (makeDirs_there fits hclear _ List.prefix_rfl)
  have hfind : (topStore.stage "a/b" blank).2.find ["a"] = .ok (some .dir) :=
    find_ok_iff.mpr ⟨fits, accessible_top rfl _, hdir⟩
  refine ⟨hkey, hother, ?_, ?_⟩
  · unfold DirectoryStore.readOut
    rw [topStore.read_eq hkey, hfind]
    rfl
  · intro h
    have he := h.apart topStore_empty (by simp) hkey (by simp) hother ⟨["b"], rfl⟩
    cases he

/-- Keys may share a directory, and an entry may have several keys. -/
theorem siblings_read : EmptyRoot topStore.root blank ∧
    ReadsFindCommits topStore {"a/b", "a//x/../b", "a/c.tmp.d"} blank := by
  refine ⟨topStore_empty, (reads_find_commits_iff topStore_empty _).mpr ?_⟩
  have hpaths : ∀ p ∈ entryPaths topStore.root {"a/b", "a//x/../b", "a/c.tmp.d"},
      p ∈ [["a", "b"], ["a", "c.tmp.d"]] := by
    rintro p ⟨key, hkey, hk⟩
    have hb : resolve topStore.root "a/b" = .ok ["a", "b"] := by decide
    have hb' : resolve topStore.root "a//x/../b" = .ok ["a", "b"] := by decide
    have hd : resolve topStore.root "a/c.tmp.d" = .ok ["a", "c.tmp.d"] := by decide
    rcases hkey with rfl | rfl | rfl
    · rw [hb] at hk
      cases hk
      decide
    · rw [hb'] at hk
      cases hk
      decide
    · rw [hd] at hk
      cases hk
      decide
  have hfits : ∀ p ∈ [["a", "b"], ["a", "c.tmp.d"]], Fits p := by decide
  have hapart : ∀ p ∈ [["a", "b"], ["a", "c.tmp.d"]], ∀ q ∈ [["a", "b"], ["a", "c.tmp.d"]],
      p <+: q → p = q := by decide
  have hunstaged : ∀ p ∈ [["a", "b"], ["a", "c.tmp.d"]], ∀ q ∈ [["a", "b"], ["a", "c.tmp.d"]],
      ¬ staging q <+: p := by decide
  constructor
  · rintro p ⟨key, -, hk⟩
    exact resolve_below hk
  · intro p hp
    exact hfits p (hpaths p hp)
  · intro p hp q hq
    exact hapart p (hpaths p hp) q (hpaths q hq)
  · intro p hp q hq
    exact hunstaged p (hpaths p hp) q (hpaths q hq)

end ImageCache
