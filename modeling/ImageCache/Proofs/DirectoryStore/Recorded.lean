import ImageCache.Proofs.DirectoryStore.Ledger
import ImageCache.Proofs.DirectoryStore.Operations

namespace ImageCache

open Disk

/-- The longest name of a staged file still fits below the root. -/
def DirectoryStore.Roomy (s : DirectoryStore) : Prop := pathSize s.root + 69 ≤ pathLimit

theorem DirectoryStore.Roomy.staging {s : DirectoryStore} (h : s.Roomy) {key : String}
    (hk : PlainKey key) : Nameable s.root (stagedName key) := by
  refine hk.stagedName_nameable ?_
  have hname : pathSize [stagedName key] = 69 := by
    simp [pathSize, hk.stagedName_size]
  rw [pathSize_append, hname]
  exact h

/-- The ledger that can be read off a shelf. -/
structure Recorded (d : Disk) (entries : Entries) (a : Ledger) : Prop where
  named : ∀ entry ∈ entries, ∃ key, PlainKey key ∧ (entry.1 = key ∨ entry.1 = stagedName key)
  content : ∀ key bytes, a.content.lookup key = some bytes ↔
    PlainKey key ∧ ∃ id, (key, id) ∈ entries ∧ (d.file id).bytes = bytes
  held : ∀ key, key ∈ a.held ↔ PlainKey key ∧ ∃ id, (stagedName key, id) ∈ entries

theorem lookup_foldr_erase (content : Finmap fun _ : String => ByteArray) (gone : List String)
    (key : String) : (gone.foldr Finmap.erase content).lookup key =
      if key ∈ gone then none else content.lookup key := by
  induction gone with
  | nil => rfl
  | cons name rest ih =>
    rw [List.foldr_cons]
    by_cases he : key = name
    · rw [he, Finmap.lookup_erase, if_pos List.mem_cons_self]
    · rw [Finmap.lookup_erase_ne he, ih]
      simp [he]

theorem total_info (root : Path) (d : Disk) (entries : Entries) :
    Census.total (entries.map (DirectoryStore.info root d)) =
      (entries.map fun entry => (d.file entry.2).bytes.size).sum := by
  induction entries with
  | nil => rfl
  | cons entry rest ih =>
    rw [List.map_cons, List.map_cons, List.sum_cons, ← ih]
    rfl

namespace Recorded

variable {d d' : Disk} {entries : Entries} {a : Ledger} {key : String} {id : FileId}

theorem absent (h : Recorded d entries a) (hk : PlainKey key) :
    a.content.lookup key = none ↔ ∀ id, (key, id) ∉ entries := by
  constructor
  · intro hn id hm
    rw [(h.content key _).mpr ⟨hk, id, hm, rfl⟩] at hn
    cases hn
  · intro hm
    refine Option.eq_none_iff_forall_ne_some.mpr fun bytes hs => ?_
    obtain ⟨-, id, hid, -⟩ := (h.content key bytes).mp hs
    exact hm id hid

theorem free (h : Recorded d entries a) (hk : PlainKey key) :
    key ∉ a.held ↔ ∀ id, (stagedName key, id) ∉ entries := by
  rw [h.held]
  exact ⟨fun hn id hm => hn ⟨hk, id, hm⟩, fun hn ⟨_, id, hm⟩ => hn id hm⟩

theorem bare (d : Disk) : Recorded d [] .empty where
  named := by simp
  content := by simp [Ledger.empty]
  held := by simp [Ledger.empty]

theorem congr (h : Recorded d entries a)
    (hb : ∀ key id, PlainKey key → (key, id) ∈ entries → (d'.file id).bytes = (d.file id).bytes) :
    Recorded d' entries a where
  named := h.named
  content key bytes := by
    rw [h.content]
    refine and_congr_right fun hk => exists_congr fun id => and_congr_right fun hm => ?_
    rw [hb key id hk hm]
  held := h.held

theorem same_files (h : Recorded d entries a) (hf : d'.files = d.files) : Recorded d' entries a :=
  h.congr fun _ _ _ _ => by rw [file, hf, file]

theorem pushed {root : Path} {f : FileData} (h : Recorded d entries a) (hs : Shelf root d entries)
    (hf : d'.files = d.files.push f) : Recorded d' entries a :=
  h.congr fun _ _ _ hm => by rw [file_push hf, if_neg (Nat.ne_of_lt (hs.stored _ hm))]

/-- What is written to a staged file is no entry yet. -/
theorem grows {root : Path} {bytes : ByteArray} (h : Recorded d entries a)
    (hs : Shelf root d entries) (hm : (stagedName key, id) ∈ entries) (hg : Grows id bytes d d') :
    Recorded d' entries a := by
  refine h.congr fun other id' ho hm' => ?_
  -- No entry shares its file with a staging name.
  have hne : id' ≠ id := by
    rintro rfl
    exact ho.ne_stagedName key (hs.named_once hm' hm)
  rw [hg.others id' hne]

theorem alike (h : Recorded d entries a) (ha : Alike d d') : Recorded d' entries a :=
  h.congr fun _ id _ _ => ha.bytes id

theorem hold (h : Recorded d entries a) (hk : PlainKey key) (id : FileId) :
    Recorded d (entries ++ [(stagedName key, id)]) { a with held := insert key a.held } where
  named entry hm := by
    rcases List.mem_append.mp hm with hm | hm
    · exact h.named entry hm
    · rw [List.mem_singleton.mp hm]
      exact ⟨key, hk, .inr rfl⟩
  content other bytes := by
    rw [h.content]
    refine and_congr_right fun ho => exists_congr fun id => and_congr_left fun _ => ?_
    simp [ho.ne_stagedName key]
  held other := by
    rw [Finset.mem_insert, h.held]
    constructor
    · rintro (rfl | ⟨ho, id, hm⟩)
      · exact ⟨hk, id, by simp⟩
      · exact ⟨ho, id, by simp [hm]⟩
    · rintro ⟨ho, id, hm⟩
      rcases List.mem_append.mp hm with hm | hm
      · exact .inr ⟨ho, id, hm⟩
      · exact .inl (stagedName_inj (Prod.mk.inj (List.mem_singleton.mp hm)).1)

/-- What is staged for a key goes away, and the key is free. -/
theorem release (h : Recorded d entries a) (key : String) :
    Recorded d (entries.without (stagedName key)) { a with held := a.held.erase key } where
  named entry hm := h.named entry (Entries.mem_without.mp hm).1
  content other bytes := by
    rw [h.content]
    refine and_congr_right fun ho => exists_congr fun id => and_congr_left fun _ => ?_
    simp [Entries.mem_without, ho.ne_stagedName key]
  held other := by
    rw [Finset.mem_erase, h.held, and_left_comm]
    refine and_congr_right fun _ => ?_
    constructor
    · rintro ⟨hne, id, hm⟩
      exact ⟨id, Entries.mem_without.mpr ⟨hm, fun he => hne (stagedName_inj he)⟩⟩
    · rintro ⟨id, hm⟩
      obtain ⟨hm, hne⟩ := Entries.mem_without.mp hm
      exact ⟨fun he => hne (congrArg stagedName he), id, hm⟩

/-- What is staged for a key becomes its entry, and the key is free. -/
theorem publish {root : Path} (h : Recorded d entries a) (hs : Shelf root d entries)
    (hk : PlainKey key) (hm : (stagedName key, id) ∈ entries) :
    Recorded d (entries.renamed (stagedName key) key)
      ⟨a.content.insert key (d.file id).bytes, a.held.erase key⟩ where
  named entry hm := by
    rcases Entries.mem_renamed.mp hm with ⟨he, -, -⟩ | ⟨hm, -, -⟩
    · exact ⟨key, hk, .inl he⟩
    · exact h.named entry hm
  content other bytes := by
    have hne := (hk.ne_stagedName key).symm
    by_cases ho : other = key
    · subst ho
      rw [Finmap.lookup_insert, Option.some.injEq]
      constructor
      · rintro rfl
        exact ⟨hk, id, Entries.mem_renamed.mpr (.inl ⟨rfl, hm, hne⟩), rfl⟩
      · rintro ⟨-, id', hm', rfl⟩
        rcases Entries.mem_renamed.mp hm' with ⟨-, hm', -⟩ | ⟨-, -, hc⟩
        · rw [hs.unique hm hm']
        · exact absurd rfl hc
    · rw [Finmap.lookup_insert_of_ne _ ho, h.content]
      refine and_congr_right fun hp => exists_congr fun id => and_congr_left fun _ => ?_
      simp [Entries.mem_renamed, ho, hp.ne_stagedName key]
  held other := by
    rw [Finset.mem_erase, h.held, and_left_comm]
    refine and_congr_right fun _ => ?_
    constructor
    · rintro ⟨hne, id, hm⟩
      refine ⟨id, Entries.mem_renamed.mpr (.inr ⟨hm, fun he => hne (stagedName_inj he), ?_⟩)⟩
      exact (hk.ne_stagedName other).symm
    · rintro ⟨id, hm⟩
      rcases Entries.mem_renamed.mp hm with ⟨he, -, -⟩ | ⟨hm, hne, -⟩
      · exact absurd he.symm (hk.ne_stagedName other)
      · exact ⟨fun he => hne (congrArg stagedName he), id, hm⟩

/-- Names go off the shelf, and with them entries, or what is staged for a key. -/
theorem prune (h : Recorded d entries a) (gone : List String) :
    Recorded d (entries.filter fun entry => entry.1 ∉ gone)
      ⟨gone.foldr Finmap.erase a.content, a.held.filter (stagedName · ∉ gone)⟩ where
  named entry hm := h.named entry (List.mem_filter.mp hm).1
  content key bytes := by
    have hl := lookup_foldr_erase a.content gone key
    dsimp only
    rw [hl]
    split
    · rename_i hg
      simp [hg]
    · rename_i hg
      rw [h.content]
      simp [hg]
  held key := by
    rw [Finset.mem_filter, h.held]
    simp only [List.mem_filter, decide_eq_true_eq]
    constructor
    · rintro ⟨⟨hk, id, hm⟩, hg⟩
      exact ⟨hk, id, hm, hg⟩
    · rintro ⟨hk, id, hm, hg⟩
      exact ⟨⟨hk, id, hm⟩, hg⟩

/-- The committed files are those under the names of keys. -/
theorem isStagedEntry_iff (h : Recorded d entries a) (root : Path) {entry : String × FileId}
    (hm : entry ∈ entries) :
    DirectoryStore.isStagedEntry root entry = false ↔ PlainKey entry.1 := by
  obtain ⟨key, hk, he⟩ := h.named entry hm
  rw [DirectoryStore.isStagedEntry]
  rcases he with he | he
  · rw [he, hk.isStaged_key]
    simp [hk]
  · rw [he, isStaged_stagedName]
    simp only [Bool.true_eq_false, false_iff]
    exact fun hp => hp.ne_stagedName key rfl

/-- Whatever of the shelf is committed is the content of the ledger, key by key. -/
theorem keys_eq (h : Recorded d entries a) (root : Path) :
    a.content.keys =
      ((entries.filter (!DirectoryStore.isStagedEntry root ·)).map (·.1)).toFinset := by
  ext key
  rw [Finmap.mem_keys, ← Finmap.lookup_isSome, Option.isSome_iff_exists, List.mem_toFinset,
    List.mem_map]
  constructor
  · rintro ⟨bytes, hb⟩
    obtain ⟨hk, id, hm, -⟩ := (h.content key bytes).mp hb
    refine ⟨(key, id), List.mem_filter.mpr ⟨hm, ?_⟩, rfl⟩
    rw [(h.isStagedEntry_iff root hm).mpr hk]
    rfl
  · rintro ⟨entry, hm, rfl⟩
    obtain ⟨hm, hc⟩ := List.mem_filter.mp hm
    have hk := (h.isStagedEntry_iff root hm).mp (by simpa using hc)
    exact ⟨_, (h.content _ _).mpr ⟨hk, entry.2, hm, rfl⟩⟩

theorem size_eq {s : DirectoryStore} (h : Recorded d entries a) (hs : Shelf s.root d entries) :
    s.size d = .ok a.total := by
  generalize hc : entries.filter (!DirectoryStore.isStagedEntry s.root ·) = committed
  have hsub : List.Sublist committed entries := hc ▸ List.filter_sublist
  -- The total goes over keys, the census over files; names that differ let the two agree.
  have hnames : (committed.map (·.1)).Nodup := hs.names.sublist (hsub.map _)
  have hlookup : ∀ entry ∈ committed,
      a.content.lookup entry.1 = some (d.file entry.2).bytes := by
    intro entry hm
    obtain ⟨hm, hp⟩ := List.mem_filter.mp (hc ▸ hm)
    have hk := (h.isStagedEntry_iff s.root hm).mp (by simpa using hp)
    exact (h.content _ _).mpr ⟨hk, entry.2, hm, rfl⟩
  have htotal : a.total = (committed.map fun entry => (d.file entry.2).bytes.size).sum := by
    rw [Ledger.total, h.keys_eq s.root, hc, List.sum_toFinset _ hnames, List.map_map]
    refine congrArg List.sum (List.map_congr_left fun entry hm => ?_)
    rw [Function.comp, hlookup entry hm]
    rfl
  rw [DirectoryStore.size_shelf hs, hc, htotal, ← total_info s.root]

end Recorded

end ImageCache
