import ImageCache.Proofs.DirectoryStore.AnyKey
import ImageCache.Proofs.Reading.OpenFile
import ImageCache.Reading.Drain
import Mathlib.Data.Set.Basic

namespace ImageCache

open Disk EntryPath

/-- Paths that can all have entries below the root at the same time. -/
structure Compatible (root : Path) (P : Set Path) : Prop where
  below : ∀ p ∈ P, Below root p
  fits : ∀ p ∈ P, Fits p
  apart : ∀ p ∈ P, ∀ q ∈ P, p <+: q → p = q
  unstaged : ∀ p ∈ P, ∀ q ∈ P, ¬ staging q <+: p

/-- No entry is where another is staged, or where it is staged itself. -/
theorem Compatible.ne_staging {root p q : Path} {P : Set Path} (hc : Compatible root P)
    (hp : p ∈ P) (hq : q ∈ P) : p ≠ staging q := by
  intro he
  exact hc.unstaged p hp q hq (he ▸ List.prefix_refl _)

/-- At the paths stand the entries last committed there, the newest first in the list; all other
files below the root are staged for one of the paths. -/
structure Arranged (root : Path) (P : Set Path) (commits : List (Path × ByteArray)) (d : Disk) :
    Prop where
  base : ∀ q, q <+: root → d.node? q = some .dir
  rooted : d.Rooted root
  files : ∀ q id, root <+: q → d.node? q = some (.file id) → q ∈ P ∨ ∃ p ∈ P, q = staging p
  stored : ∀ q id, root <+: q → d.node? q = some (.file id) → id < d.files.size
  single : ∀ q q' id, root <+: q → root <+: q' → d.node? q = some (.file id) →
    d.node? q' = some (.file id) → q = q'
  entries : ∀ p ∈ P,
    (∃ id, d.node? p = some (.file id) ∧ commits.lookup p = some (d.file id).bytes) ∨
      d.node? p = none ∧ commits.lookup p = none

/-- What a reader of the key reads to the end, if it is given an entry. -/
def DirectoryStore.readOut (s : DirectoryStore) (key : String) (d : Disk) :
    Except Fault (Option ByteArray) :=
  match s.read key d with
  | (.ok none, _) => .ok none
  | (.ok (some f), d) => (OpenFile.reader.toReader.run Reading.toEnd (f, d)).1.map some
  | (.error e, _) => .error e

namespace Arranged

variable {root p : Path} {P : Set Path} {commits : List (Path × ByteArray)} {d d' : Disk}

theorem not_dir (h : Arranged root P commits d) (hp : p ∈ P) : d.node? p ≠ some .dir := by
  rcases h.entries p hp with ⟨id, hn, -⟩ | ⟨hn, -⟩
  · simp [hn]
  · simp [hn]

/-- No file stands above an entry. -/
theorem above_clear (h : Arranged root P commits d) (hc : Compatible root P) (hp : p ∈ P) :
    ∀ q, q <+: p → q ≠ p → ∀ id, d.node? q ≠ some (.file id) := by
  intro q hq hne id hfile
  rcases List.prefix_or_prefix_of_prefix (hc.below p hp).root_above hq with hroot | hup
  · rcases h.files q id hroot hfile with hm | ⟨other, ho, rfl⟩
    · exact hne (hc.apart q hm p hp hq)
    · exact hc.unstaged p hp other ho hq
  · rw [h.base q hup] at hfile
    cases hfile

/-- What is read at a path is what was committed there last. -/
theorem reads {s : DirectoryStore} {key : String} (h : Arranged s.root P commits d)
    (hc : Compatible s.root P) (hk : resolve s.root key = .ok p) (hp : p ∈ P) :
    s.readOut key d = .ok (commits.lookup p) := by
  unfold DirectoryStore.readOut
  rw [s.read_eq hk]
  rcases h.entries p hp with ⟨id, hn, hl⟩ | ⟨hn, hl⟩
  · have hacc := h.rooted p (hc.below p hp).root_above (by simp [hn])
    rw [find_ok_iff.mpr ⟨hc.fits p hp, hacc, hn⟩, hl]
    dsimp only
    rw [OpenFile.read_whole, (touch_alike id d).bytes]
    rfl
  · rw [hl]
    rcases find_through (hc.fits p hp) (h.above_clear hc hp) with hf | ⟨hf, -⟩
    · rw [hf, hn]
    · rw [hf]
      rfl

/-- Files may be written that are nobody's entry. -/
theorem same_nodes (h : Arranged root P commits d) (nodes : d'.nodes = d.nodes)
    (size : d'.files.size = d.files.size)
    (bytes : ∀ p ∈ P, ∀ id, d.node? p = some (.file id) → (d'.file id).bytes = (d.file id).bytes) :
    Arranged root P commits d' := by
  have hnode : ∀ q, d'.node? q = d.node? q := by
    intro q
    rw [node?, node?, nodes]
  constructor
  · intro q hq
    rw [hnode, h.base q hq]
  · intro q hroot hq x hx hne
    rw [hnode] at hq ⊢
    exact h.rooted q hroot hq x hx hne
  · intro q id hroot hq
    rw [hnode] at hq
    exact h.files q id hroot hq
  · intro q id hroot hq
    rw [hnode] at hq
    rw [size]
    exact h.stored q id hroot hq
  · intro q q' id hroot hroot' hq hq'
    rw [hnode] at hq hq'
    exact h.single q q' id hroot hroot' hq hq'
  · intro p hp
    rw [hnode]
    rcases h.entries p hp with ⟨id, hn, hl⟩ | hn
    · exact .inl ⟨id, hn, by rw [bytes p hp id hn, hl]⟩
    · exact .inr hn

/-- Directories may be made above an entry. -/
theorem made (h : Arranged root P commits d) (hc : Compatible root P) (hp : p ∈ P)
    (hm : Made p.dropLast d d') : Arranged root P commits d' := by
  constructor
  · intro q hq
    exact hm.dir (h.base q hq)
  · exact hm.rooted h.rooted
  · intro q id hroot hq
    exact h.files q id hroot (hm.file hq)
  · intro q id hroot hq
    rw [hm.files]
    exact h.stored q id hroot (hm.file hq)
  · intro q q' id hroot hroot' hq hq'
    exact h.single q q' id hroot hroot' (hm.file hq) (hm.file hq')
  · intro q hq
    rcases h.entries q hq with ⟨id, hn, hl⟩ | ⟨hn, hl⟩
    · refine .inl ⟨id, ?_, ?_⟩
      · rw [hm.kept q (by simp [hn]), hn]
      · rw [file, hm.files]
        exact hl
    · refine .inr ⟨?_, hl⟩
      apply Classical.byContradiction
      intro hnew
      have hup := (hm.new q hn hnew).2.1
      have heq := hc.apart q hq p hp (hup.trans (List.dropLast_prefix p))
      subst heq
      have hpos := List.length_pos_iff.mpr (hc.below q hq).ne_nil
      have hlen := hup.length_le
      rw [List.length_dropLast] at hlen
      omega

/-- A staged file may be made for an entry. -/
theorem created (h : Arranged root P commits d) (hc : Compatible root P) (hp : p ∈ P)
    (hacc : d.Accessible (staging p)) : Arranged root P commits (d.created (staging p)) := by
  have hkept : ∀ {q n}, d.node? q = some n → (d.created (staging p)).node? q = some n := by
    intro q n hq
    rw [node?_created, hq]
    rfl
  have hnew : ∀ {q n}, (d.created (staging p)).node? q = some n →
      d.node? q = some n ∨ q = staging p ∧ n = .file d.files.size := by
    intro q n hq
    rw [node?_created, Option.or_eq_some_iff] at hq
    rcases hq with hq | ⟨-, hq⟩
    · exact .inl hq
    · split at hq
      · rename_i he
        exact .inr ⟨he, (Option.some.inj hq).symm⟩
      · cases hq
  have haccess : ∀ {q}, d.Accessible q → (d.created (staging p)).Accessible q := by
    intro q hq x hx hne
    exact hkept (hq x hx hne)
  have hsize : (d.created (staging p)).files.size = d.files.size + 1 := Array.size_push _
  constructor
  · intro q hq
    exact hkept (h.base q hq)
  · intro q hroot hq
    obtain ⟨n, hn⟩ := Option.ne_none_iff_exists'.mp hq
    rcases hnew hn with hold | ⟨rfl, -⟩
    · exact haccess (h.rooted q hroot (by simp [hold]))
    · exact haccess hacc
  · intro q id hroot hq
    rcases hnew hq with hold | ⟨he, -⟩
    · exact h.files q id hroot hold
    · exact .inr ⟨p, hp, he⟩
  · intro q id hroot hq
    rw [hsize]
    rcases hnew hq with hold | ⟨-, he⟩
    · exact Nat.lt_succ_of_lt (h.stored q id hroot hold)
    · cases he
      exact Nat.lt_succ_self _
  · intro q q' id hroot hroot' hq hq'
    rcases hnew hq with hold | ⟨he, hid⟩
    · rcases hnew hq' with hold' | ⟨-, hid'⟩
      · exact h.single q q' id hroot hroot' hold hold'
      · cases hid'
        exact absurd (h.stored q _ hroot hold) (Nat.lt_irrefl _)
    · rcases hnew hq' with hold' | ⟨he', -⟩
      · cases hid
        exact absurd (h.stored q' _ hroot' hold') (Nat.lt_irrefl _)
      · rw [he, he']
  · intro q hq
    rcases h.entries q hq with ⟨id, hn, hl⟩ | ⟨hn, hl⟩
    · have hid := h.stored q id (hc.below q hq).root_above hn
      refine .inl ⟨id, hkept hn, ?_⟩
      rw [file_push rfl id, if_neg (Nat.ne_of_lt hid)]
      exact hl
    · refine .inr ⟨?_, hl⟩
      rw [node?_created, hn, if_neg (hc.ne_staging hq hp)]
      rfl

/-- A staged file may be removed. -/
theorem withdrawn (h : Arranged root P commits d) (hc : Compatible root P) (hp : p ∈ P)
    {id : FileId} (hfile : d.node? (staging p) = some (.file id)) :
    Arranged root P commits (d.unlink (staging p)) := by
  have hnil := (staging_below (hc.below p hp)).ne_nil
  have hkept : ∀ {q n}, q ≠ staging p → d.node? q = some n →
      (d.unlink (staging p)).node? q = some n := by
    intro q n hne hq
    rw [node?_unlink d hnil, if_neg hne, hq]
  have hold : ∀ {q n}, (d.unlink (staging p)).node? q = some n →
      q ≠ staging p ∧ d.node? q = some n := by
    intro q n hq
    rw [node?_unlink d hnil] at hq
    split at hq
    · cases hq
    · rename_i hne
      exact ⟨hne, hq⟩
  have hdir : ∀ {q}, d.node? q = some .dir → q ≠ staging p := by
    rintro q hq rfl
    rw [hfile] at hq
    cases hq
  constructor
  · intro q hq
    have hb := h.base q hq
    exact hkept (hdir hb) hb
  · intro q hroot hq x hx hne
    obtain ⟨n, hn⟩ := Option.ne_none_iff_exists'.mp hq
    have hx := h.rooted q hroot (by simp [(hold hn).2]) x hx hne
    exact hkept (hdir hx) hx
  · intro q other hroot hq
    exact h.files q other hroot (hold hq).2
  · intro q other hroot hq
    exact h.stored q other hroot (hold hq).2
  · intro q q' other hroot hroot' hq hq'
    exact h.single q q' other hroot hroot' (hold hq).2 (hold hq').2
  · intro q hq
    have hne := hc.ne_staging hq hp
    rcases h.entries q hq with ⟨other, hn, hl⟩ | ⟨hn, hl⟩
    · exact .inl ⟨other, hkept hne hn, hl⟩
    · refine .inr ⟨?_, hl⟩
      rw [node?_unlink d hnil, if_neg hne, hn]

/-- A staged file may be moved to its entry's place, and is the entry then. -/
theorem committed (h : Arranged root P commits d) (hc : Compatible root P) (hp : p ∈ P)
    {id : FileId} (hfile : d.node? (staging p) = some (.file id)) :
    Arranged root P ((p, (d.file id).bytes) :: commits)
      ((d.unlink p).relocate (staging p) p) := by
  have hpb := hc.below p hp
  have hsb := staging_below hpb
  have hmoved := h.rooted.node?_moved hsb.root_above hpb.root_above hfile (h.not_dir hp)
    (staging_ne p)
  have hdir : ∀ {q}, d.node? q = some .dir →
      ((d.unlink p).relocate (staging p) p).node? q = some .dir := by
    intro q hq
    have hne : q ≠ p := by
      rintro rfl
      exact h.not_dir hp hq
    have hne' : q ≠ staging p := by
      rintro rfl
      rw [hfile] at hq
      cases hq
    rw [hmoved, if_neg hne, if_neg hne', hq]
  have hcases : ∀ {q n}, ((d.unlink p).relocate (staging p) p).node? q = some n →
      q = p ∧ n = .file id ∨ q ≠ p ∧ q ≠ staging p ∧ d.node? q = some n := by
    intro q n hq
    rw [hmoved] at hq
    split at hq
    · rename_i he
      exact .inl ⟨he, (Option.some.inj hq).symm⟩
    · rename_i hne
      split at hq
      · cases hq
      · rename_i hne'
        exact .inr ⟨hne, hne', hq⟩
  constructor
  · intro q hq
    exact hdir (h.base q hq)
  · intro q hroot hq x hx hne
    obtain ⟨n, hn⟩ := Option.ne_none_iff_exists'.mp hq
    rcases hcases hn with ⟨rfl, -⟩ | ⟨-, -, hold⟩
    · have hacc := h.rooted (staging q) hsb.root_above (by simp [hfile])
      exact hdir (DirectoryStore.accessible_staging.mp hacc x hx hne)
    · exact hdir (h.rooted q hroot (by simp [hold]) x hx hne)
  · intro q other hroot hq
    rcases hcases hq with ⟨rfl, -⟩ | ⟨-, -, hold⟩
    · exact .inl hp
    · exact h.files q other hroot hold
  · intro q other hroot hq
    rcases hcases hq with ⟨-, he⟩ | ⟨-, -, hold⟩
    · cases he
      exact h.stored _ id hsb.root_above hfile
    · exact h.stored q other hroot hold
  · intro q q' other hroot hroot' hq hq'
    rcases hcases hq with ⟨rfl, he⟩ | ⟨-, hne, hold⟩
    · rcases hcases hq' with ⟨rfl, -⟩ | ⟨-, hne', hold'⟩
      · rfl
      · cases he
        exact absurd (h.single q' _ id hroot' hsb.root_above hold' hfile) hne'
    · rcases hcases hq' with ⟨rfl, he'⟩ | ⟨-, -, hold'⟩
      · cases he'
        exact absurd (h.single q _ id hroot hsb.root_above hold hfile) hne
      · exact h.single q q' other hroot hroot' hold hold'
  · intro q hq
    rw [hmoved, List.lookup_cons]
    by_cases he : q = p
    · subst he
      refine .inl ⟨id, if_pos rfl, ?_⟩
      simp
      rfl
    · rw [if_neg he, if_neg (hc.ne_staging hq hp), beq_eq_false_iff_ne.mpr he]
      exact h.entries q hq

end Arranged

end ImageCache
