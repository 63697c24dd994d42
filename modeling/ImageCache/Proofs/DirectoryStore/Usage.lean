import ImageCache.Proofs.DirectoryStore.Arranged
import ImageCache.Proofs.DirectoryStore.Scene

namespace ImageCache

open Disk EntryPath

structure Draft where
  entry : StagedEntry
  written : ByteArray

/-- A store in use: its disk, the live writers in the order in which they were opened, and the bytes
of every successful commit with the path of the entry, the newest first. -/
structure Usage where
  disk : Disk
  live : List Draft
  commits : List (Path × ByteArray)

inductive KeyCall where
  | stage (key : String)
  | write (i : Nat) (bytes : ByteArray)
  | finish (how : Finish) (i : Nat)
  | forget (i : Nat)
  | read (key : String)
  | wait (nanoseconds : Nat)

/-- Calls to the store have a key out of these. -/
def KeyCall.Of (K : Set String) : KeyCall → Prop
  | .stage key => key ∈ K
  | .write _ _ => True
  | .finish _ _ => True
  | .forget _ => True
  | .read key => key ∈ K
  | .wait _ => True

def Finish.commits : Finish → Draft → Disk → List (Path × ByteArray)
  | .commit, w, d =>
    match (w.entry.commit d).1.1 with
    | .ok () => [(w.entry.final, w.written)]
    | .error _ => []
  | .abort, _, _ => []
  | .drop, _, _ => []

namespace Usage

def step (s : DirectoryStore) (u : Usage) : KeyCall → Usage
  | .stage key =>
    match s.stage key u.disk with
    | (.ok (some entry), d) => { u with disk := d, live := u.live ++ [⟨entry, .empty⟩] }
    | (_, d) => { u with disk := d }
  | .write i bytes =>
    match u.live[i]? with
    | none => u
    | some w =>
      match StagedEntry.write bytes (w.entry, u.disk) with
      | (.ok n, (entry, d)) =>
        { u with disk := d, live := u.live.set i ⟨entry, w.written ++ bytes.extract 0 n⟩ }
      | (.error _, (entry, d)) => { u with disk := d, live := u.live.set i { w with entry } }
  | .finish how i =>
    match u.live[i]? with
    | none => u
    | some w =>
      ⟨how.run w.entry u.disk, u.live.eraseIdx i, how.commits w u.disk ++ u.commits⟩
  | .forget i => { u with live := u.live.eraseIdx i }
  | .read key => { u with disk := (s.read key u.disk).2 }
  | .wait nanoseconds => { u with disk := u.disk.wait nanoseconds }

def run (s : DirectoryStore) (u : Usage) (calls : List KeyCall) : Usage := calls.foldl (step s) u

def fresh (d : Disk) : Usage := ⟨d, [], []⟩

end Usage

/-- The writer has a file staged for one of the paths, with just what was written through it. -/
structure Draft.Holds (P : Set Path) (d : Disk) (w : Draft) (p : Path) (id : FileId) : Prop where
  member : p ∈ P
  handle : w.entry = ⟨⟨.file id, w.written.size⟩, staging p, p⟩
  fits : Fits (staging p)
  there : d.node? (staging p) = some (.file id)
  bytes : (d.file id).bytes = w.written

/-- Entries are in order, and every live writer has its staged file in its place. -/
structure Usage.Tidy (root : Path) (P : Set Path) (u : Usage) : Prop where
  arranged : Arranged root P u.commits u.disk
  drafts : ∀ w ∈ u.live, ∃ p id, w.Holds P u.disk p id
  distinct : (u.live.map (·.entry.staging)).Nodup

section Steps

variable {s : DirectoryStore} {root p : Path} {P : Set Path} {d d' : Disk} {id : FileId}
  {w : Draft} {u : Usage}

theorem Draft.Holds.kept (h : w.Holds P d p id) (hn : d'.node? (staging p) = some (.file id))
    (hb : (d'.file id).bytes = (d.file id).bytes) : w.Holds P d' p id :=
  ⟨h.member, h.handle, h.fits, hn, hb.trans h.bytes⟩

theorem Draft.Holds.staging (h : w.Holds P d p id) : w.entry.staging = staging p := by
  rw [h.handle]

/-- Where the staged file stands it is found. -/
theorem Draft.Holds.find (h : w.Holds P d p id) (hc : Compatible root P) (rooted : d.Rooted root) :
    d.find (EntryPath.staging p) = .ok (some (.file id)) := by
  have hroot := (staging_below (hc.below p h.member)).root_above
  exact find_ok_iff.mpr ⟨h.fits, rooted _ hroot (by simp [h.there]), h.there⟩

/-- A staged file can be moved to its entry's place. -/
theorem Draft.Holds.commit {commits : List (Path × ByteArray)} (h : w.Holds P d p id)
    (hc : Compatible root P) (ha : Arranged root P commits d) :
    w.entry.commit d = ((.ok (), none), (d.unlink p).relocate (EntryPath.staging p) p) := by
  have hs := h.find hc ha.rooted
  have hacc := DirectoryStore.accessible_staging.mp (find_ok_iff.mp hs).2.1
  have ht := find_ok_iff.mpr ⟨hc.fits p h.member, hacc, rfl⟩
  have hmove := rename_file hs ht (ha.not_dir h.member)
  rw [h.handle]
  exact DirectoryStore.commit_moved hmove

theorem Draft.Holds.remove (h : w.Holds P d p id) (hc : Compatible root P)
    (rooted : d.Rooted root) :
    removeFile w.entry.staging d = (.ok (), d.unlink (EntryPath.staging p)) := by
  rw [h.staging]
  exact removeFile_file (h.find hc rooted)

namespace Usage.Tidy

theorem alike (h : u.Tidy root P) (ha : Alike u.disk d) :
    Usage.Tidy root P { u with disk := d } := by
  have hnode : ∀ q, d.node? q = u.disk.node? q := by
    intro q
    rw [node?, node?, ha.nodes]
  constructor
  · exact h.arranged.same_nodes ha.nodes ha.size fun p _ id _ => ha.bytes id
  · intro w hw
    obtain ⟨p, id, hh⟩ := h.drafts w hw
    exact ⟨p, id, hh.kept (by rw [hnode, hh.there]) (ha.bytes id)⟩
  · exact h.distinct

theorem forget (h : u.Tidy root P) (i : Nat) :
    Usage.Tidy root P { u with live := u.live.eraseIdx i } := by
  have hsub := List.eraseIdx_sublist u.live i
  exact ⟨h.arranged, fun w hw => h.drafts w (hsub.subset hw), h.distinct.sublist (hsub.map _)⟩

theorem made (h : u.Tidy root P) (hc : Compatible root P) (hp : p ∈ P)
    (hm : Made p.dropLast u.disk d) : Usage.Tidy root P { u with disk := d } := by
  constructor
  · exact h.arranged.made hc hp hm
  · intro w hw
    obtain ⟨q, id, hh⟩ := h.drafts w hw
    refine ⟨q, id, hh.kept ?_ ?_⟩
    · rw [hm.kept _ (by simp [hh.there]), hh.there]
    · rw [file, file, hm.files]
  · exact h.distinct

theorem opened (h : u.Tidy root P) (hc : Compatible root P) (hp : p ∈ P)
    (free : u.disk.find (staging p) = .ok none) :
    Usage.Tidy root P { u with disk := u.disk.created (staging p), live := u.live ++
      [⟨⟨⟨.file u.disk.files.size, 0⟩, staging p, p⟩, .empty⟩] } := by
  obtain ⟨fits, hacc, hnone⟩ := find_ok_iff.mp free
  constructor
  · exact h.arranged.created hc hp hacc
  · intro w hw
    rcases List.mem_append.mp hw with hold | hnew
    · obtain ⟨q, id, hh⟩ := h.drafts w hold
      have hroot := (staging_below (hc.below q hh.member)).root_above
      have hid := h.arranged.stored _ id hroot hh.there
      refine ⟨q, id, hh.kept ?_ ?_⟩
      · rw [node?_created, hh.there]
        rfl
      · rw [file_push rfl id, if_neg (Nat.ne_of_lt hid)]
    · rw [List.mem_singleton.mp hnew]
      refine ⟨p, u.disk.files.size, hp, rfl, fits, ?_, ?_⟩
      · rw [node?_created, hnone, if_pos rfl]
        rfl
      · rw [file_push rfl, if_pos rfl]
  · rw [List.map_append, List.nodup_append]
    refine ⟨h.distinct, by simp, ?_⟩
    intro a ha b hb hab
    obtain ⟨w, hw, rfl⟩ := List.mem_map.mp ha
    obtain ⟨q, id, hh⟩ := h.drafts w hw
    have hb : b = staging p := by simpa using hb
    have hthere := hh.there
    rw [← hh.staging, hab, hb, hnone] at hthere
    cases hthere

theorem stage {key : String} (h : u.Tidy s.root P) (hc : Compatible s.root P)
    (hk : resolve s.root key = .ok p) (hp : p ∈ P) : (u.step s (.stage key)).Tidy s.root P := by
  obtain ⟨⟨reply, d⟩, hs⟩ : ∃ out, s.stage key u.disk = out := ⟨_, rfl⟩
  rw [Usage.step, hs]
  cases s.stage_opening hk hs with
  | failed hm => exact h.made hc hp hm
  | taken hm there => exact h.made hc hp hm
  | opened hm free => exact (h.made hc hp hm).opened hc hp free

/-- No two live writers stage at the same path. -/
theorem staging_ne (h : u.Tidy root P) {i j : Nat} {other : Draft} (hw : u.live[i]? = some w)
    (ho : u.live[j]? = some other) (hne : j ≠ i) : other.entry.staging ≠ w.entry.staging := by
  intro he
  have hj : (u.live.map (·.entry.staging))[j]? = (u.live.map (·.entry.staging))[i]? := by
    rw [List.getElem?_map, List.getElem?_map, hw, ho, Option.map_some, Option.map_some, he]
  have hlt : j < (u.live.map (·.entry.staging)).length := by
    rw [List.length_map]
    exact (List.getElem?_eq_some_iff.mp ho).1
  exact hne ((List.getElem?_inj hlt h.distinct).mp hj)

/-- No two live writers have one file. -/
theorem file_ne (h : u.Tidy root P) (hc : Compatible root P) {i j : Nat} {other : Draft} {q : Path}
    {oid : FileId} (hw : u.live[i]? = some w) (ho : u.live[j]? = some other) (hne : j ≠ i)
    (hh : w.Holds P u.disk p id) (hq : other.Holds P u.disk q oid) : oid ≠ id := by
  rintro rfl
  have hproot := (staging_below (hc.below p hh.member)).root_above
  have hqroot := (staging_below (hc.below q hq.member)).root_above
  have he := h.arranged.single _ _ _ hqroot hproot hq.there hh.there
  exact h.staging_ne hw ho hne (hq.staging.trans (he.trans hh.staging.symm))

theorem wrote (h : u.Tidy root P) (hc : Compatible root P) {i : Nat} {bytes : ByteArray}
    (hw : u.live[i]? = some w) (hh : w.Holds P u.disk p id) (grows : Grows id bytes u.disk d) :
    Usage.Tidy root P ⟨d, u.live.set i ⟨⟨⟨.file id, w.written.size + bytes.size⟩, staging p, p⟩,
      w.written ++ bytes⟩, u.commits⟩ := by
  have hnode : ∀ q, d.node? q = u.disk.node? q := by
    intro q
    rw [node?, node?, grows.nodes]
  constructor
  · apply h.arranged.same_nodes grows.nodes grows.size
    intro q hq other hn
    have hne : other ≠ id := by
      rintro rfl
      have hroot := (staging_below (hc.below p hh.member)).root_above
      have he := h.arranged.single _ _ _ (hc.below q hq).root_above hroot hn hh.there
      exact hc.ne_staging hq hh.member he
    rw [grows.others other hne]
  · intro w' hw'
    obtain ⟨j, hj⟩ := List.mem_iff_getElem?.mp hw'
    by_cases hne : i = j
    · subst hne
      rw [List.getElem?_set_self (List.getElem?_eq_some_iff.mp hw).1] at hj
      rw [← Option.some.inj hj]
      refine ⟨p, id, hh.member, ?_, hh.fits, ?_, ?_⟩
      · rw [ByteArray.size_append]
      · rw [hnode, hh.there]
      · rw [grows.own, hh.bytes]
    · rw [List.getElem?_set_ne hne] at hj
      obtain ⟨q, other, ho⟩ := h.drafts w' (List.mem_of_getElem? hj)
      refine ⟨q, other, ho.kept ?_ ?_⟩
      · rw [hnode, ho.there]
      · rw [grows.others other (h.file_ne hc hw hj (Ne.symm hne) hh ho)]
  · rw [List.map_set]
    obtain ⟨hlt, hget⟩ := List.getElem?_eq_some_iff.mp hw
    have hlt : i < (u.live.map (·.entry.staging)).length := by rwa [List.length_map]
    have hsame : (u.live.map (·.entry.staging))[i] = staging p := by
      rw [List.getElem_map, hget, hh.staging]
    rw [← hsame, List.set_getElem_self]
    exact h.distinct

theorem write (h : u.Tidy s.root P) (hc : Compatible s.root P) (i : Nat) (bytes : ByteArray) :
    (u.step s (.write i bytes)).Tidy s.root P := by
  rw [Usage.step]
  cases hw : u.live[i]? with
  | none => exact h
  | some w =>
    obtain ⟨p, id, hh⟩ := h.drafts w (List.mem_of_getElem? hw)
    have hroot := (staging_below (hc.below p hh.member)).root_above
    obtain ⟨d, hd, grows⟩ := DirectoryStore.write_handle (staging p) p
      (h.arranged.stored _ id hroot hh.there) (congrArg ByteArray.size hh.bytes) bytes
    dsimp only
    rw [hh.handle, hd]
    dsimp only
    rw [ByteArray.extract_zero_size]
    exact h.wrote hc hw hh grows

/-- What the others have staged is not where a writer that is gone had it. -/
theorem others (h : u.Tidy root P) {i : Nat} (hw : u.live[i]? = some w)
    (hh : w.Holds P u.disk p id) : ∀ other ∈ u.live.eraseIdx i,
      ∃ q oid, other.Holds P u.disk q oid ∧ staging q ≠ staging p := by
  intro other ho
  obtain ⟨j, hne, hj⟩ := List.mem_eraseIdx_iff_getElem?.mp ho
  obtain ⟨q, oid, hq⟩ := h.drafts other (List.mem_of_getElem? hj)
  refine ⟨q, oid, hq, ?_⟩
  rw [← hq.staging, ← hh.staging]
  exact h.staging_ne hw hj hne

theorem committed (h : u.Tidy root P) (hc : Compatible root P) {i : Nat} (hw : u.live[i]? = some w)
    (hh : w.Holds P u.disk p id) : Usage.Tidy root P ⟨(u.disk.unlink p).relocate (staging p) p,
      u.live.eraseIdx i, (p, w.written) :: u.commits⟩ := by
  have hpb := hc.below p hh.member
  constructor
  · rw [← hh.bytes]
    exact h.arranged.committed hc hh.member hh.there
  · intro other ho
    obtain ⟨q, oid, hq, hne⟩ := h.others hw hh other ho
    have hne' := (hc.ne_staging hh.member hq.member).symm
    refine ⟨q, oid, hq.kept ?_ rfl⟩
    rw [h.arranged.rooted.node?_moved (staging_below hpb).root_above hpb.root_above hh.there
      (h.arranged.not_dir hh.member) (EntryPath.staging_ne p), if_neg hne', if_neg hne, hq.there]
  · exact h.distinct.sublist ((List.eraseIdx_sublist u.live i).map _)

theorem withdrawn (h : u.Tidy root P) (hc : Compatible root P) {i : Nat} (hw : u.live[i]? = some w)
    (hh : w.Holds P u.disk p id) :
    Usage.Tidy root P ⟨u.disk.unlink (staging p), u.live.eraseIdx i, u.commits⟩ := by
  have hsb := staging_below (hc.below p hh.member)
  constructor
  · exact h.arranged.withdrawn hc hh.member hh.there
  · intro other ho
    obtain ⟨q, oid, hq, hne⟩ := h.others hw hh other ho
    refine ⟨q, oid, hq.kept ?_ rfl⟩
    rw [node?_unlink u.disk hsb.ne_nil, if_neg hne, hq.there]
  · exact h.distinct.sublist ((List.eraseIdx_sublist u.live i).map _)

theorem finish (h : u.Tidy s.root P) (hc : Compatible s.root P) (how : Finish) (i : Nat) :
    (u.step s (.finish how i)).Tidy s.root P := by
  rw [Usage.step]
  cases hw : u.live[i]? with
  | none => exact h
  | some w =>
    obtain ⟨p, id, hh⟩ := h.drafts w (List.mem_of_getElem? hw)
    have hremove := hh.remove hc h.arranged.rooted
    dsimp only
    cases how with
    | commit =>
      rw [Finish.run, Finish.commits, hh.commit hc h.arranged, hh.handle]
      exact h.committed hc hw hh
    | abort =>
      rw [Finish.run, DirectoryStore.abort_disk, hremove]
      exact h.withdrawn hc hw hh
    | drop =>
      rw [Finish.run, DirectoryStore.discard_disk, hremove]
      exact h.withdrawn hc hw hh

theorem step (h : u.Tidy s.root P) (hc : Compatible s.root P) {K : Set String}
    (hK : ∀ key ∈ K, ∀ p, resolve s.root key = .ok p → p ∈ P) (call : KeyCall) (ho : call.Of K) :
    (u.step s call).Tidy s.root P := by
  cases call with
  | stage key =>
    cases hk : resolve s.root key with
    | error e =>
      rw [Usage.step, s.stage_refused hk]
      exact h
    | ok p => exact h.stage hc hk (hK key ho p hk)
  | write i bytes => exact h.write hc i bytes
  | finish how i => exact h.finish hc how i
  | forget i => exact h.forget i
  | read key => exact h.alike (s.read_alike key u.disk)
  | wait nanoseconds => exact h.alike ⟨rfl, rfl, fun _ => rfl⟩

end Usage.Tidy

theorem run_tidy (h : u.Tidy s.root P) (hc : Compatible s.root P) {K : Set String}
    (hK : ∀ key ∈ K, ∀ p, resolve s.root key = .ok p → p ∈ P) (calls : List KeyCall)
    (ho : ∀ call ∈ calls, call.Of K) : (u.run s calls).Tidy s.root P := by
  induction calls generalizing u with
  | nil => exact h
  | cons call rest ih =>
    obtain ⟨hcall, hrest⟩ := List.forall_mem_cons.mp ho
    exact ih (h.step hc hK call hcall) hrest

end Steps

section Start

variable {root p q : Path} {P : Set Path} {d : Disk}

theorem EmptyRoot.base (h : EmptyRoot root d) (hq : q <+: root) : d.node? q = some .dir := by
  obtain ⟨-, hacc, hnode⟩ := find_ok_iff.mp h.dir
  exact hacc.through hnode hq

theorem EmptyRoot.nothing (h : EmptyRoot root d) (hq : root <+: q) (hne : q ≠ root) :
    d.node? q = none := by
  have hnil : q ≠ [] := by
    rintro rfl
    exact hne (List.prefix_nil.mp hq).symm
  rw [node?, if_neg hnil, List.lookup_eq_none_iff]
  intro node hm
  rw [bne_iff_ne]
  rintro rfl
  have hb := h.bare node hm
  rw [isBelow_iff.mpr ⟨hq, hne⟩] at hb
  cases hb

theorem EmptyRoot.tidy (h : EmptyRoot root d) (hc : Compatible root P) :
    (Usage.fresh d).Tidy root P := by
  have only : ∀ {q n}, root <+: q → d.node? q = some n → q = root := by
    intro q n hq hn
    apply Classical.byContradiction
    intro hne
    rw [h.nothing hq hne] at hn
    cases hn
  have nofile : ∀ {q id}, root <+: q → d.node? q ≠ some (.file id) := by
    intro q id hq hn
    rw [only hq hn, h.base (List.prefix_refl root)] at hn
    cases hn
  have arranged : Arranged root P [] d := by
    constructor
    · intro q hq
      exact h.base hq
    · intro q hq hn
      obtain ⟨n, hn⟩ := Option.ne_none_iff_exists'.mp hn
      rw [only hq hn]
      exact (find_ok_iff.mp h.dir).2.1
    · intro q id hq hn
      exact absurd hn (nofile hq)
    · intro q id hq hn
      exact absurd hn (nofile hq)
    · intro q q' id hq hq' hn
      exact absurd hn (nofile hq)
    · intro p hp
      have hb := hc.below p hp
      exact .inr ⟨h.nothing hb.root_above hb.ne_root, rfl⟩
  exact ⟨arranged, by simp [Usage.fresh], List.nodup_nil⟩

end Start

end ImageCache
