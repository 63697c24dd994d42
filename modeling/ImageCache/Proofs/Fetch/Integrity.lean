import ImageCache.Proofs.Fetch.OnDisk
import ImageCache.Rehearsal.TileCodec
import ImageCache.Rehearsal.World

namespace ImageCache

open Disk Fetcher

variable {W S I E : Type}

inductive Errand where
  | fetch (r : Request)
  | lookUpOrFetch (r : Request)
  | maintain

namespace Fetcher

variable {R Wr : Type}

def perform (f : Fetcher W R Wr S I E) (w : W) : Errand → W
  | .fetch r => (f.fetch r w).2
  | .lookUpOrFetch r => (f.lookUpOrFetch r w).2
  | .maintain => (f.maintain w).2

def performAll (f : Fetcher W R Wr S I E) (w : W) (errands : List Errand) : W :=
  errands.foldl f.perform w

def fetches (f : Fetcher W R Wr S I E) (w : W) : Errand → List (Request × W)
  | .fetch r => [(r, w)]
  | .lookUpOrFetch r =>
    match f.lookUp r w with
    | (some _, _) => []
    | (none, w) => [(r, w)]
  | .maintain => []

def history (f : Fetcher W R Wr S I E) : W → List Errand → List (Request × W)
  | _, [] => []
  | w, errand :: rest => f.fetches w errand ++ f.history (f.perform w errand) rest

end Fetcher

/-- The fetch made for a request in this world downloaded these bytes. It opened a writer of the
request's own key, a transfer that succeeded was conveyed to this writer, the writer was committed,
and the bytes are those that it took in the meantime. -/
def Downloaded (f : Fetcher W OpenFile StagedEntry S I E) (r : Request) (w : W)
    (bytes : ByteArray) : Prop :=
  ∃ before during after writer last program talk,
    f.trace r w = before ++ .stage r.fileKey (.ok (some writer)) ::
      .transfer r.remoteUrl program :: (during ++ .commit last (.ok ()) :: after) ∧
    program.Plays talk (.ok ()) ∧ Conveys writer talk during last ∧
    talk.accepted = bytes ∧ Deed.accepted (f.trace r w) = bytes

/-- Each of these entries is that of a request, and a fetch of the history downloaded its bytes. -/
def Accounted (f : Fetcher W OpenFile StagedEntry S I E) (history : List (Request × W)) (d : Disk)
    (entries : Entries) : Prop :=
  ∀ entry ∈ entries, ∃ r w, (r, w) ∈ history ∧ entry.1 = r.fileKey ∧
    Downloaded f r w (d.file entry.2).bytes

/-- All files below the root are accounted for. -/
def Kept (f : Fetcher W OpenFile StagedEntry S I E) (root : Path) (history : List (Request × W))
    (d : Disk) : Prop :=
  ∃ entries, Shelf root d entries ∧ Accounted f history d entries

/-- So are all but one, which is staged for this key and has these bytes so far. -/
def Filling (f : Fetcher W OpenFile StagedEntry S I E) (root : Path) (history : List (Request × W))
    (key : String) (id : FileId) (bytes : ByteArray) (d : Disk) : Prop :=
  ∃ entries, Shelf root d (entries ++ [(stagedName key, id)]) ∧ Accounted f history d entries ∧
    (d.file id).bytes = bytes

variable {f : Fetcher W OpenFile StagedEntry S I E} {root : Path} {d d' : Disk}
  {history more : List (Request × W)} {key : String} {id : FileId} {bytes : ByteArray}

theorem Accounted.congr {entries : Entries} (h : Accounted f history d entries)
    (hb : ∀ entry ∈ entries, (d'.file entry.2).bytes = (d.file entry.2).bytes) :
    Accounted f history d' entries := by
  intro entry he
  rw [hb entry he]
  exact h entry he

theorem Accounted.mono {entries : Entries} (h : Accounted f history d entries)
    (hsub : ∀ made ∈ history, made ∈ more) : Accounted f more d entries := by
  intro entry he
  obtain ⟨r, w, hm, hd⟩ := h entry he
  exact ⟨r, w, hsub _ hm, hd⟩

theorem Accounted.plain {entries : Entries} (h : Accounted f history d entries) :
    ∀ entry ∈ entries, PlainKey entry.1 := by
  intro entry he
  obtain ⟨r, w, -, hname, -⟩ := h entry he
  rw [hname]
  exact diskKey_plain _ _

theorem Kept.alike (h : Kept f root history d) (ha : Alike d d') : Kept f root history d' := by
  obtain ⟨entries, hs, hk⟩ := h
  exact ⟨entries, ha.shelf hs, hk.congr fun entry _ => ha.bytes entry.2⟩

theorem Kept.mono (h : Kept f root history d) (hsub : ∀ made ∈ history, made ∈ more) :
    Kept f root more d := by
  obtain ⟨entries, hs, hk⟩ := h
  exact ⟨entries, hs, hk.mono hsub⟩

theorem Filling.alike (h : Filling f root history key id bytes d) (ha : Alike d d') :
    Filling f root history key id bytes d' := by
  obtain ⟨entries, hs, hk, hb⟩ := h
  exact ⟨entries, ha.shelf hs, hk.congr fun entry _ => ha.bytes entry.2, (ha.bytes id).trans hb⟩

theorem Filling.grows {taken : ByteArray} (h : Filling f root history key id bytes d)
    (hg : Grows id taken d d') : Filling f root history key id (bytes ++ taken) d' := by
  obtain ⟨entries, hs, hk, hb⟩ := h
  refine ⟨entries, hg.shelf hs, hk.congr fun entry he => ?_, by rw [hg.own, hb]⟩
  have hne : entry.2 ≠ id := by
    have hids := hs.ids
    rw [List.map_append, List.nodup_append] at hids
    exact hids.2.2 entry.2 (List.mem_map_of_mem he) id (by simp)
  rw [hg.others entry.2 hne]

/-- An aborted download leaves what there was before. -/
theorem Filling.withdrawn (h : Filling f root history key id bytes d)
    (hw : ∀ entries, Shelf root d entries → (stagedName key, id) ∈ entries →
      d'.files = d.files ∧ Shelf root d' (entries.without (stagedName key))) :
    Kept f root history d' := by
  obtain ⟨entries, hs, hk, -⟩ := h
  obtain ⟨hf, hs'⟩ := hw _ hs (by simp)
  have he : Entries.without (stagedName key) (entries ++ [(stagedName key, id)]) = entries := by
    rw [Entries.without, List.filter_append, List.filter_eq_self.mpr]
    · simp
    · intro entry he
      simpa using (hk.plain entry he).ne_stagedName key
  refine ⟨entries, he ▸ hs', hk.congr fun entry _ => ?_⟩
  rw [file, hf, file]

/-- A committed download adds its entry, or puts it in the place of an older one. -/
theorem Filling.committed {r : Request} {w : W} (h : Filling f root history r.fileKey id bytes d)
    (hd : Downloaded f r w bytes)
    (hc : ∀ entries, Shelf root d entries → (stagedName r.fileKey, id) ∈ entries →
      d'.files = d.files ∧
        Shelf root d' (entries.renamed (stagedName r.fileKey) r.fileKey)) :
    Kept f root (history ++ [(r, w)]) d' := by
  obtain ⟨entries, hs, hk, hb⟩ := h
  obtain ⟨hf, hs'⟩ := hc _ hs (by simp)
  have hfile : ∀ other, d'.file other = d.file other := by
    intro other
    rw [file, hf, file]
  refine ⟨_, hs', fun entry he => ?_⟩
  rw [hfile]
  rcases Entries.mem_renamed.mp he with ⟨hname, hm, -⟩ | ⟨hm, hne, -⟩
  · have hid : entry.2 = id := hs.unique hm (by simp)
    rw [hid, hb]
    exact ⟨r, w, by simp, hname, hd⟩
  · rcases List.mem_append.mp hm with hm | hm
    · exact hk.mono (fun made hmade => List.mem_append_left _ hmade) entry hm
    · rw [List.mem_singleton.mp hm] at hne
      exact absurd rfl hne

/-- A writer that was had fills a new file. -/
theorem OnDisk.stage_filling {s : DirectoryStore} {disk : Part W Disk}
    {note : Notice → StateM W Unit} {w after : W} {writer : StagedEntry}
    (h : OnDisk f s disk note) (hk : Kept f s.root history (disk.get w)) (hp : PlainKey key)
    (does : f.Does w (.stage key (.ok (some writer))) after) :
    ∃ id, writer = s.handle key id 0 ∧ id < (disk.get after).files.size ∧
      Filling f s.root history key id ByteArray.empty (disk.get after) := by
  obtain ⟨entries, hs, hk⟩ := hk
  rcases h.stage_disk hs hp does with ⟨-, hno⟩ | ⟨hr, hf, hs'⟩
  · exact absurd rfl (hno writer)
  · have hw : writer = s.handle key (disk.get w).files.size 0 := by
      simpa using hr
    refine ⟨_, hw, by simp [hf], entries, hs', hk.congr fun entry he => ?_, ?_⟩
    · rw [file_push hf, if_neg (Nat.ne_of_lt (hs.stored entry he))]
    · rw [file_push hf, if_pos rfl]

/-- A fetch leaves only whole entries: those there were, and one that it downloaded itself. -/
theorem fetch_kept {s : DirectoryStore} {disk : Part W Disk} {note : Notice → StateM W Unit} {w : W}
    (h : OnDisk f s disk note) (hk : Kept f s.root history (disk.get w)) (r : Request) :
    Kept f s.root (history ++ [(r, w)]) (disk.get (f.fetch r w).2) := by
  have hsub : ∀ made ∈ history, made ∈ history ++ [(r, w)] :=
    fun made hm => List.mem_append_left _ hm
  obtain ⟨outcome, left, hf, -, leads, course⟩ := f.fetch_course r w
  rw [hf]
  have life := course.life
  -- The deeds can be told apart only once they are no longer known to be the trace.
  generalize ht : f.trace r w = trace at leads life
  cases life with
  | unasked idle => exact (hk.alike (h.leads_alike (fun d hd => (idle d hd).1) leads)).mono hsub
  | unopened idle none quiet =>
    obtain ⟨w₁, hb, w₂, hst, ha⟩ := leads_append.mp leads
    have hk₁ := hk.alike (h.leads_alike (fun d hd => (idle d hd).1) hb)
    have hk₂ : Kept f s.root history (disk.get w₂) := by
      obtain ⟨entries, hs, hacc⟩ := hk₁
      rcases h.stage_disk hs (diskKey_plain _ _) hst with ⟨hd, -⟩ | ⟨hr, -⟩
      · rw [hd]
        exact ⟨entries, hs, hacc⟩
      · exact absurd hr (none _)
    exact (hk₂.alike (h.leads_alike (fun d hd => (quiet d hd).1) ha)).mono hsub
  | finished idle plays conveys took finishes quiet committed failed =>
    obtain ⟨w₁, hb, w₂, hst, w₃, htr, hrest⟩ := leads_append.mp leads
    obtain ⟨w₄, hc, w₅, hfin, ha⟩ := leads_append.mp hrest
    have hk₁ := hk.alike (h.leads_alike (fun d hd => (idle d hd).1) hb)
    obtain ⟨id, hw, hid, hk₂⟩ := h.stage_filling hk₁ (diskKey_plain _ _) hst
    have htr := h.does_alike rfl htr
    have hempty : ((disk.get w₂).file id).bytes = ByteArray.empty := by
      obtain ⟨entries, -, -, hb⟩ := hk₂
      exact hb
    obtain ⟨m, rfl, grows⟩ := h.conveys_disk conveys hc hw (htr.size ▸ hid)
      (by rw [htr.bytes, hempty, ByteArray.size_empty])
    have hk₄ := (hk₂.alike htr).grows grows
    rw [ByteArray.empty_append] at hk₄
    have hk₅ : Kept f s.root (history ++ [(r, w)]) (disk.get w₅) := by
      cases finishes with
      | commit reply =>
        -- Only during the transfer did a writer take bytes, so they are all those of the trace.
        have ⟨_, hs, _⟩ := hk₄
        obtain ⟨rfl, -⟩ := h.commit_disk hs (diskKey_plain _ _) (by simp) hfin
        refine hk₄.committed ⟨_, _, _, _, _, _, _, ht, plays, conveys, took.symm, ?_⟩
          fun entries hs hm => (h.commit_disk hs (diskKey_plain _ _) hm hfin).2
        · rw [ht, Deed.accepted_append, accepted_unhandled fun d hd => (idle d hd).1,
            Deed.accepted_cons, Deed.accepted_cons, Deed.accepted_append, Deed.accepted_cons,
            accepted_unhandled quiet]
          simp [Deed.taken]
      | abort e reply =>
        exact (hk₄.withdrawn fun entries hs hm => h.abort_disk hs hm hfin).mono hsub
    exact hk₅.alike (h.leads_alike quiet ha)

variable {s : DirectoryStore} {disk : Part W Disk} {note : Notice → StateM W Unit} {w : W}

/-- Maintenance takes names away, and changes nothing else of names and bytes. -/
theorem maintain_disk {entries : Entries} (h : OnDisk f s disk note)
    (hs : Shelf s.root (disk.get w) entries) :
    ∃ d gone, Loses s.root (disk.get w) d entries gone ∧ Alike d (disk.get (f.maintain w).2) := by
  obtain ⟨n, d', gone, hp, hl, -⟩ := s.prune_shelf hs
  refine ⟨d', gone, hl, ?_⟩
  have hr : disk.run s.prune w = (.ok n, disk.set d' w) := by
    simp only [Part.run, hp]
  have hm : f.maintain w = (.ended (.ok ()), (note (.pruned n) (disk.set d' w)).2) := by
    rw [maintain, h.store]
    simp only [DirectoryStore.byteStore, DirectoryStore.maintain, bind, StateT.bind, hr]
    rfl
  have hn := h.note (.pruned n) (disk.set d' w)
  rwa [h.lawful.get_set, ← congrArg (·.2) hm] at hn

theorem maintain_kept (h : OnDisk f s disk note) (hk : Kept f s.root history (disk.get w)) :
    Kept f s.root history (disk.get (f.maintain w).2) := by
  obtain ⟨entries, hs, hk⟩ := hk
  obtain ⟨d, gone, hl, ha⟩ := maintain_disk h hs
  refine Kept.alike ⟨_, hl.shelf, fun entry he => ?_⟩ ha
  rw [file, hl.files]
  exact hk entry (List.mem_filter.mp he).1

/-- To keep an image in memory is nothing to the disk. -/
theorem remember_alike (h : OnDisk f s disk note) (key : Option String) (image : Option I) (w : W) :
    Alike (disk.get w) (disk.get (f.remember key image w).2) := by
  match key, image with
  | some key, some image =>
    unfold remember
    dsimp only
    split
    · exact h.keep key image w
    · exact .refl _
  | none, _ => exact .refl _
  | some _, none => exact .refl _

theorem lookUpOrFetch_kept (h : OnDisk f s disk note) (hk : Kept f s.root history (disk.get w))
    (r : Request) : Kept f s.root (history ++ f.fetches w (.lookUpOrFetch r))
      (disk.get (f.lookUpOrFetch r w).2) := by
  obtain ⟨⟨found, w₁⟩, hl⟩ : ∃ out, f.lookUp r w = out := ⟨_, rfl⟩
  have hk₁ : Kept f s.root history (disk.get w₁) := by
    have ha := h.lookUp r.identityKey w
    rw [show f.memory.get r.identityKey w = _ from hl] at ha
    exact hk.alike ha
  cases found with
  | some image =>
    simp only [fetches, lookUpOrFetch, bind, StateT.bind, hl, List.append_nil]
    exact hk₁
  | none =>
    have hk₂ := fetch_kept h hk₁ r
    obtain ⟨⟨⟨result, r'⟩, w₂⟩, hf⟩ : ∃ out, f.fetch r w₁ = out := ⟨_, rfl⟩
    rw [hf] at hk₂
    simp only [fetches, lookUpOrFetch, bind, StateT.bind, hl, hf]
    match result with
    | .error e => exact hk₂
    | .ok none => exact hk₂
    | .ok (some fetched) =>
      exact hk₂.alike (remember_alike h (some r'.identityKey) (some fetched.image) w₂)

theorem perform_kept (h : OnDisk f s disk note) (hk : Kept f s.root history (disk.get w))
    (errand : Errand) :
    Kept f s.root (history ++ f.fetches w errand) (disk.get (f.perform w errand)) := by
  cases errand with
  | fetch r => exact fetch_kept h hk r
  | lookUpOrFetch r => exact lookUpOrFetch_kept h hk r
  | maintain => exact (maintain_kept h hk).mono fun made hm => List.mem_append_left _ hm

theorem performAll_kept (h : OnDisk f s disk note) (hk : Kept f s.root history (disk.get w))
    (errands : List Errand) :
    Kept f s.root (history ++ f.history w errands) (disk.get (f.performAll w errands)) := by
  induction errands generalizing w history with
  | nil => simpa [Fetcher.history, performAll] using hk
  | cons errand rest ih =>
    have hr := ih (perform_kept h hk errand)
    rwa [List.append_assoc] at hr

/-- After any run of fetches and maintenance from an empty root, whatever the source did, the files
below the root are committed entries of requests, no staged ones among them, and the bytes of each
are those of one fetch of its key whose transfer succeeded. Maintenance only ever removes names. -/
theorem run_leaves_whole_entries (h : OnDisk f s disk note) (hw : EmptyRoot s.root (disk.get w))
    (errands : List Errand) :
    (∀ node ∈ (disk.get (f.performAll w errands)).nodes, isBelow s.root node = true →
      EntryPath.isStaged node.1 = false ∧ ∃ r w₀ id, (r, w₀) ∈ f.history w errands ∧
        node = (s.root ++ [r.fileKey], .file id) ∧
        Downloaded f r w₀ ((disk.get (f.performAll w errands)).file id).bytes) ∧
      (disk.get (f.maintain (f.performAll w errands)).2).nodes.Sublist
        (disk.get (f.performAll w errands)).nodes ∧
      ∀ id, ((disk.get (f.maintain (f.performAll w errands)).2).file id).bytes =
        ((disk.get (f.performAll w errands)).file id).bytes := by
  have start : Kept f s.root [] (disk.get w) := ⟨[], hw.shelf, by simp [Accounted]⟩
  obtain ⟨entries, hs, hk⟩ := performAll_kept h start errands
  rw [List.nil_append] at hk
  refine ⟨?_, ?_⟩
  · intro node hm hb
    have hn : node ∈ entries.map (place s.root) :=
      hs.nodes ▸ List.mem_filter.mpr ⟨hm, hb⟩
    obtain ⟨entry, he, rfl⟩ := List.mem_map.mp hn
    obtain ⟨r, w₀, hr, hname, hd⟩ := hk entry he
    refine ⟨(hk.plain entry he).isStaged_key s.root, r, w₀, entry.2, hr, ?_, hd⟩
    rw [place, hname]
  · obtain ⟨d, gone, hl, ha⟩ := maintain_disk h hs
    refine ⟨ha.nodes ▸ hl.nodes, fun id => ?_⟩
    rw [ha.bytes, file, hl.files, file]

namespace Rehearsal

def tileFetcher (s : DirectoryStore) :
    Fetcher (World Disk Tile) OpenFile StagedEntry Stream Tile Fault where
  settings := .standard
  store := s.byteStore World.tierPart World.note
  source := World.source
  codec := Tile.codec
  memory := World.memoryTier Tile.cost
  observer := World.recorder
  notice := World.note

theorem tileFetcher_onDisk (s : DirectoryStore) :
    OnDisk (tileFetcher s) s World.tierPart World.note where
  store := rfl
  lawful := ⟨fun _ _ => rfl, fun _ => rfl, fun _ _ _ => rfl⟩
  note _ _ := .refl _
  notice _ _ := .refl _
  onEvent _ _ _ := .refl _
  transfer _ _ := .refl _
  openStream _ _ := .refl _
  stream _ _ _ := .refl _
  lookUp _ _ := .refl _
  keep _ _ _ := .refl _
  forgetAll _ := .refl _

/-- A world with a resource that is sent whole and one that breaks off. -/
def twoResources : World Disk Tile :=
  ((World.start Disk.blank ⟨0, 0⟩).serve "whole"
    ⟨some [(.writeAll ⟨#[84, 73, 77, 71]⟩, false)], none, none⟩).serve "broken"
    ⟨some [(.writeAll ⟨#[84, 73]⟩, false), (.fail .shortRead, false)], none, none⟩

theorem twoResources_empty : EmptyRoot [] (World.tierPart.get twoResources) :=
  ⟨rfl, fun _ hm => absurd hm List.not_mem_nil⟩

def twoErrands : List Errand :=
  [.fetch (.ofUrl "whole" ⟨1, 1⟩), .lookUpOrFetch (.ofUrl "broken" ⟨1, 1⟩)]

end Rehearsal

open Rehearsal in
theorem two_fetches_leave_whole_entries :
    let s : DirectoryStore := ⟨[], 9, 600⟩
    let f := tileFetcher s
    let w := f.performAll twoResources twoErrands
    let d : Disk := World.tierPart.get w
    let d' : Disk := World.tierPart.get (f.maintain w).2
    OnDisk f s World.tierPart World.note ∧ EmptyRoot s.root (World.tierPart.get twoResources) ∧
      (∀ node ∈ d.nodes, isBelow s.root node = true →
        EntryPath.isStaged node.1 = false ∧ ∃ r w₀ id, (r, w₀) ∈ f.history twoResources twoErrands ∧
          node = (s.root ++ [r.fileKey], .file id) ∧ Downloaded f r w₀ (d.file id).bytes) ∧
      d'.nodes.Sublist d.nodes ∧ ∀ id, (d'.file id).bytes = (d.file id).bytes := by
  intro s f w d d'
  have h : OnDisk f s World.tierPart World.note := tileFetcher_onDisk s
  unfold d' d w
  exact ⟨h, twoResources_empty, run_leaves_whole_entries h twoResources_empty twoErrands⟩

end ImageCache
