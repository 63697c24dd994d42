import ImageCache.Proofs.DirectoryStore.Recorded
import ImageCache.Proofs.Fetch.Judging
import ImageCache.Proofs.Fetch.OnDisk
import ImageCache.Proofs.Fetch.Outcome
import ImageCache.Proofs.Reading.OpenFile

namespace ImageCache

open Disk Fetcher

theorem IsDiskKey.plain {key : String} (h : IsDiskKey key) : PlainKey key := by
  obtain ⟨identity, tag, rfl⟩ := h
  exact diskKey_plain identity tag

namespace DirectoryStore

variable {W : Type}

def entryAt (s : DirectoryStore) (d : Disk) (key : String) : Option ByteArray :=
  match d.find (s.root ++ [key]) with
  | .ok (some (.file id)) => some (d.file id).bytes
  | _ => none

def Stages (s : DirectoryStore) (d : Disk) (key : String) (id : FileId) : Prop :=
  d.find (s.root ++ [stagedName key]) = .ok (some (.file id))

def view (s : DirectoryStore) (disk : Part W Disk) : StoreView W OpenFile StagedEntry where
  sound w := ∃ entries a, Shelf s.root (disk.get w) entries ∧ Recorded (disk.get w) entries a
  entry w key := s.entryAt (disk.get w) key
  held w key := ∃ id, s.Stages (disk.get w) key id
  filling w writer key bytes := ∃ id, writer = s.handle key id bytes.size ∧
    s.Stages (disk.get w) key id ∧ ((disk.get w).file id).bytes = bytes
  ahead whole := fun (entry, w) ahead => OpenFile.Ahead whole (entry, disk.get w) ahead

end DirectoryStore

section Shelf

variable {s : DirectoryStore} {d d' : Disk} {entries : Entries} {a : Ledger} {key : String}
  {id : FileId}

theorem Shelf.stages_iff (h : Shelf s.root d entries) :
    s.Stages d key id ↔ (stagedName key, id) ∈ entries :=
  ⟨h.mem_of_find, h.find_some⟩

theorem Recorded.entryAt_eq (h : Recorded d entries a) (hs : Shelf s.root d entries)
    (hk : PlainKey key) : s.entryAt d key = a.content.lookup key := by
  rw [DirectoryStore.entryAt]
  split
  · rename_i id hf
    exact ((h.content key _).mpr ⟨hk, id, hs.mem_of_find hf, rfl⟩).symm
  · rename_i hf
    exact ((h.absent hk).mpr fun id hm => hf id (hs.find_some hm)).symm

theorem Recorded.stages_iff (h : Recorded d entries a) (hs : Shelf s.root d entries)
    (hk : PlainKey key) : (∃ id, s.Stages d key id) ↔ key ∈ a.held := by
  rw [h.held key]
  exact ⟨fun ⟨id, hf⟩ => ⟨hk, id, hs.stages_iff.mp hf⟩,
    fun ⟨_, id, hm⟩ => ⟨id, hs.stages_iff.mpr hm⟩⟩

end Shelf

namespace OnDisk

variable {W S I E : Type} {f : Fetcher W OpenFile StagedEntry S I E} {s : DirectoryStore}
  {disk : Part W Disk} {note : Notice → StateM W Unit} {w after : W} {entries entries' : Entries}
  {a : Ledger} {key : String} {id : FileId} {bytes : ByteArray}

/-- Where the same ledger can be read off, there are the same entries and the same keys are held. -/
theorem view_same (hs : Shelf s.root (disk.get w) entries) (hr : Recorded (disk.get w) entries a)
    (hs' : Shelf s.root (disk.get after) entries')
    (hr' : Recorded (disk.get after) entries' a) : (s.view disk).Same w after where
  sound := ⟨entries', a, hs', hr'⟩
  entry _ hk := (hr'.entryAt_eq hs' hk.plain).trans (hr.entryAt_eq hs hk.plain).symm
  held _ hk := (hr'.stages_iff hs' hk.plain).trans (hr.stages_iff hs hk.plain).symm

theorem view_opened (hs : Shelf s.root (disk.get w) entries)
    (hr : Recorded (disk.get w) entries a) (hs' : Shelf s.root (disk.get after) entries')
    (hr' : Recorded (disk.get after) entries' { a with held := insert key a.held }) :
    (s.view disk).Opened key w after where
  sound := ⟨entries', _, hs', hr'⟩
  entry _ hk := (hr'.entryAt_eq hs' hk.plain).trans (hr.entryAt_eq hs hk.plain).symm
  held other hk := by
    refine (hr'.stages_iff hs' hk.plain).trans (Finset.mem_insert.trans ?_)
    exact or_congr_right (hr.stages_iff hs hk.plain).symm

theorem view_closed {content : Finmap fun _ : String => ByteArray} {entry : Option ByteArray}
    (hs : Shelf s.root (disk.get w) entries) (hr : Recorded (disk.get w) entries a)
    (hs' : Shelf s.root (disk.get after) entries')
    (hr' : Recorded (disk.get after) entries' ⟨content, a.held.erase key⟩) (hk : IsDiskKey key)
    (own : content.lookup key = entry)
    (others : ∀ other, other ≠ key → content.lookup other = a.content.lookup other) :
    (s.view disk).Closed key entry w after where
  sound := ⟨entries', _, hs', hr'⟩
  own := (hr'.entryAt_eq hs' hk.plain).trans own
  entry other ho hne := by
    refine (hr'.entryAt_eq hs' ho.plain).trans ((others other hne).trans ?_)
    exact (hr.entryAt_eq hs ho.plain).symm
  held other ho := by
    refine (hr'.stages_iff hs' ho.plain).trans (Finset.mem_erase.trans (and_comm.trans ?_))
    exact and_congr_left fun _ => (hr.stages_iff hs ho.plain).symm

theorem view_keeps (alike : Alike (disk.get w) (disk.get after)) (hs : (s.view disk).sound w) :
    (s.view disk).Keeps w after := by
  obtain ⟨entries, a, hs, hr⟩ := hs
  have hs' := alike.shelf hs
  refine ⟨view_same hs hr hs' (hr.alike alike), ?_, ?_⟩
  · rintro writer key bytes ⟨id, hw, hid, hb⟩
    exact ⟨id, hw, hs'.stages_iff.mpr (hs.stages_iff.mp hid), (alike.bytes id).trans hb⟩
  · rintro whole entry ahead ⟨id, hn, hb, ha⟩
    exact ⟨id, hn, (alike.bytes id).trans hb, ha⟩

/-- Open entries cannot be told from their bytes; to read them leaves the disk as it is. -/
theorem entry_mirrors (h : OnDisk f s disk note) (whole : ByteArray) :
    f.store.entry.Mirrors (.ofBytes whole) fun t ahead =>
      (s.view disk).sound t.2 ∧ (s.view disk).ahead whole t ahead := by
  have mirrors := OpenFile.mirrors whole
  rw [h.store]
  refine ⟨⟨?_, ?_⟩, ?_⟩
  · rintro ⟨entry, w⟩ ahead ⟨hs, ha⟩ n
    obtain ⟨reply, ⟨next, d⟩, rest, hr, ho, hn⟩ := mirrors.read ha n
    replace hr : OpenFile.read n (entry, disk.get w) = (reply, (next, d)) := hr
    obtain rfl : d = disk.get w := by
      have hd := OpenFile.read_disk n entry (disk.get w)
      rwa [hr] at hd
    refine ⟨reply, (next, w), rest, ?_, ho, hs, hn⟩
    simp only [DirectoryStore.byteStore, Part.runWith, hr, h.lawful.set_get]
  · rintro ⟨entry, w⟩ ahead ⟨-, ha⟩
    exact mirrors.horizon ha
  · rintro ⟨entry, w⟩ ahead ⟨hs, ha⟩
    obtain ⟨reply, ⟨next, d⟩, rest, hr, ho, hn⟩ := mirrors.rewind ha
    replace hr : OpenFile.rewind (entry, disk.get w) = (reply, (next, d)) := hr
    obtain rfl : disk.get w = d := congrArg (·.2.2) hr
    refine ⟨reply, (next, w), rest, ?_, ho, hs, hn⟩
    simp only [DirectoryStore.byteStore, Part.runWith, hr, h.lawful.set_get]

/-- Whatever the codec, what it finds in the entries of a directory depends on their bytes alone. -/
theorem judges (h : OnDisk f s disk note) : Judges f (s.view disk) f.codec.judgement := by
  have mirrors := fun whole => ((h.entry_mirrors whole).buffered).remap Buffered.attach_detach
  refine ⟨fun sound ahead => ?_, fun factor sound ahead => ?_⟩
  · exact (mirrors _).run f.codec.boundsSeekable ⟨⟨sound, ahead⟩, rfl⟩
  · exact (mirrors _).run (f.codec.decodeSeekable factor) ⟨⟨sound, ahead⟩, rfl⟩

theorem read_found (h : OnDisk f s disk note) (hs : (s.view disk).sound w) (hk : PlainKey key)
    {reply : Except Fault (Option OpenFile)} (does : f.Does w (.read key reply) after)
    (he : (s.view disk).entry w key = some bytes) :
    ∃ entry, reply = .ok (some entry) ∧ (s.view disk).ahead bytes (entry, after) bytes := by
  obtain ⟨entries, a, hs, hr⟩ := hs
  rw [Does, h.store] at does
  have hread : s.read key (disk.get w) = (reply, disk.get after) := h.run_disk does
  obtain ⟨-, id, hm, hb⟩ := (hr.content key bytes).mp ((hr.entryAt_eq hs hk).symm.trans he)
  rw [s.read_some hs hk hm] at hread
  obtain ⟨rfl, hd⟩ := Prod.mk.inj hread
  refine ⟨_, rfl, id, rfl, ?_, ByteArray.extract_zero_size.symm⟩
  rw [← hd, (touch_alike id _).bytes, hb]

theorem read_missing (h : OnDisk f s disk note) (roomy : s.Roomy) (hs : (s.view disk).sound w)
    (hk : PlainKey key) {reply : Except Fault (Option OpenFile)}
    (does : f.Does w (.read key reply) after) (he : (s.view disk).entry w key = none) :
    reply = .ok none := by
  obtain ⟨entries, a, hs, hr⟩ := hs
  rw [Does, h.store] at does
  have hread : s.read key (disk.get w) = (reply, disk.get after) := h.run_disk does
  have hm := (hr.absent hk).mp ((hr.entryAt_eq hs hk).symm.trans he)
  rw [s.read_none hs hk (hk.nameable (roomy.staging hk)) hm] at hread
  exact (Prod.mk.inj hread).1.symm

theorem stage_refused (h : OnDisk f s disk note) (hs : (s.view disk).sound w) (hk : PlainKey key)
    {reply : Except Fault (Option StagedEntry)} (does : f.Does w (.stage key reply) after)
    (held : (s.view disk).held w key) : reply = .ok none ∧ (s.view disk).Same w after := by
  obtain ⟨entries, a, hs, hr⟩ := hs
  obtain ⟨id, hid⟩ := held
  rw [Does, h.store] at does
  have hstage : s.stage key (disk.get w) = (reply, disk.get after) := h.run_disk does
  rw [s.stage_taken hs hk (hs.stages_iff.mp hid)] at hstage
  obtain ⟨rfl, hd⟩ := Prod.mk.inj hstage
  exact ⟨rfl, view_same hs hr (hd ▸ hs) (hd ▸ hr)⟩

theorem stage_opened (h : OnDisk f s disk note) (roomy : s.Roomy) (hs : (s.view disk).sound w)
    (hk : PlainKey key) {reply : Except Fault (Option StagedEntry)}
    (does : f.Does w (.stage key reply) after) (free : ¬ (s.view disk).held w key) :
    ∃ writer, reply = .ok (some writer) ∧ (s.view disk).filling after writer key .empty ∧
      (s.view disk).Opened key w after := by
  obtain ⟨entries, a, hs, hr⟩ := hs
  have hm : ∀ id, (stagedName key, id) ∉ entries :=
    fun id hm => free ⟨id, hs.stages_iff.mpr hm⟩
  rw [Does, h.store] at does
  have hstage : s.stage key (disk.get w) = (reply, disk.get after) := h.run_disk does
  obtain ⟨d', hst, hf, -, hs'⟩ := s.stage_free hs hk (roomy.staging hk) hm
  rw [hst] at hstage
  obtain ⟨rfl, rfl⟩ := Prod.mk.inj hstage
  refine ⟨_, rfl, ⟨(disk.get w).files.size, rfl, ?_, ?_⟩,
    view_opened hs hr hs' ((hr.pushed hs hf).hold hk _)⟩
  · exact hs'.stages_iff.mpr (by simp)
  · rw [file_push hf, if_pos rfl]

theorem writer_offer (h : OnDisk f s disk note) (hs : (s.view disk).sound w)
    {writer next : StagedEntry} {more : ByteArray} {reply : Except Fault Nat}
    (filling : (s.view disk).filling w writer key bytes)
    (does : f.Does w (.offer writer more reply next) after) :
    reply = .ok more.size ∧ (s.view disk).Same w after ∧
      (s.view disk).filling after next key (bytes ++ more) := by
  obtain ⟨entries, a, hs, hr⟩ := hs
  obtain ⟨id, rfl, hid, rfl⟩ := filling
  have hm := hs.stages_iff.mp hid
  rw [Does, h.store] at does
  have hw : StagedEntry.write more (s.handle key id _, disk.get w) =
    (reply, (next, disk.get after)) := h.runWith_disk does
  obtain ⟨d', hd, grows⟩ := s.write_end key (hs.stored _ hm) rfl more
  rw [hd] at hw
  obtain ⟨rfl, hpair⟩ := Prod.mk.inj hw
  obtain ⟨rfl, rfl⟩ := Prod.mk.inj hpair
  have hs' := grows.shelf hs
  refine ⟨rfl, view_same hs hr hs' (hr.grows hs hm grows), id, ?_, hs'.stages_iff.mpr hm, grows.own⟩
  rw [ByteArray.size_append]

theorem writer_flush (h : OnDisk f s disk note) (hs : (s.view disk).sound w)
    {writer next : StagedEntry} {reply : Except Fault Unit}
    (filling : (s.view disk).filling w writer key bytes)
    (does : f.Does w (.flush writer reply next) after) :
    reply = .ok () ∧ (s.view disk).Same w after ∧ (s.view disk).filling after next key bytes := by
  rw [Does, h.store] at does
  have hw : StagedEntry.flush (writer, disk.get w) = (reply, (next, disk.get after)) :=
    h.runWith_disk does
  obtain ⟨rfl, hpair⟩ := Prod.mk.inj hw
  obtain ⟨rfl, hd⟩ := Prod.mk.inj hpair
  have alike : Alike (disk.get w) (disk.get after) := by
    rw [← hd]
    exact .refl _
  have keeps := view_keeps alike hs
  exact ⟨rfl, keeps.toSame, keeps.filling _ _ _ filling⟩

theorem writer_commit (h : OnDisk f s disk note) (hs : (s.view disk).sound w) (hk : IsDiskKey key)
    {writer : StagedEntry} {reply : Except Fault Unit}
    (filling : (s.view disk).filling w writer key bytes)
    (does : f.Does w (.commit writer reply) after) :
    reply = .ok () ∧ (s.view disk).Closed key (some bytes) w after := by
  obtain ⟨entries, a, hs, hr⟩ := hs
  obtain ⟨id, rfl, hid, rfl⟩ := filling
  have hm := hs.stages_iff.mp hid
  obtain ⟨rfl, hf, hs'⟩ := h.commit_disk hs hk.plain hm does
  refine ⟨rfl, view_closed hs hr hs' ((hr.publish hs hk.plain hm).same_files hf) hk ?_ ?_⟩
  · exact Finmap.lookup_insert _
  · exact fun other hne => Finmap.lookup_insert_of_ne _ hne

theorem writer_abort (h : OnDisk f s disk note) (hs : (s.view disk).sound w) (hk : IsDiskKey key)
    {writer : StagedEntry} {reply : Except Fault Unit}
    (filling : (s.view disk).filling w writer key bytes)
    (does : f.Does w (.abort writer reply) after) :
    reply = .ok () ∧ (s.view disk).Closed key ((s.view disk).entry w key) w after := by
  obtain ⟨entries, a, hs, hr⟩ := hs
  obtain ⟨id, rfl, hid, rfl⟩ := filling
  have hm := hs.stages_iff.mp hid
  obtain ⟨hf, hs'⟩ := h.abort_disk hs hm does
  refine ⟨?_, view_closed hs hr hs' ((hr.release key).same_files hf) hk
    (hr.entryAt_eq hs hk.plain).symm fun _ _ => rfl⟩
  rw [Does, h.store] at does
  have ho : (s.handle key id _).abort (disk.get w) = (reply, disk.get after) := h.run_disk does
  have hreply := s.abort_some hs hm id ((disk.get w).file id).bytes.size
  rwa [ho] at hreply

/-- A fetcher over a directory store has a dependable store, if the store has room for its names. -/
theorem dependable (h : OnDisk f s disk note) (roomy : s.Roomy) : Dependable f (s.view disk) where
  quiet hs hd does := view_keeps (h.does_alike hd does) hs
  missing hs hk does he := h.read_missing roomy hs hk.plain does he
  found hs hk does he := h.read_found hs hk.plain does he
  replays whole := (h.entry_mirrors whole).replays
  refused hs hk does held := h.stage_refused hs hk.plain does held
  opened hs hk does free := h.stage_opened roomy hs hk.plain does free
  offer {_ _ _ _ more _ _ _} hs hf does := by
    obtain ⟨rfl, same, filling⟩ := h.writer_offer hs hf does
    refine ⟨⟨more.size, rfl, Nat.le_refl _, id⟩, same, ?_⟩
    rwa [Exchange.taken, ByteArray.extract_zero_size]
  flush hs hf does := h.writer_flush hs hf does
  commit hs hk hf does := h.writer_commit hs hk hf does
  abort hs hk hf does := h.writer_abort hs hk hf does

/-- Over a directory store nothing but bytes decides what an image comes to: those found for the
request, or those downloaded, which are the entry of its key from then on. -/
theorem fetch_decided (h : OnDisk f s disk note) (roomy : s.Roomy) (hs : (s.view disk).sound w)
    (r : Request) :
    (s.view disk).sound (f.fetch r w).2 ∧
      ((f.fetch r w).1.1 = .ok none ∨
        ∃ bytes provenance,
          (f.fetch r w).1.1 = f.codec.judgement.result r bytes provenance ∧
          ((s.view disk).search w r.places = some (bytes, provenance) ∨
            provenance = .network ∧
              (s.view disk).entry (f.fetch r w).2 r.fileKey = some bytes)) := by
  have dependable := h.dependable roomy
  refine ⟨fetch_sound dependable hs r, ?_⟩
  obtain ⟨result, left, hf, -, fares⟩ := fetch_fares dependable hs r
  rw [hf]
  generalize f.trace r w = deeds at fares
  cases fares with
  | stored there marks asks idle same shows =>
    exact .inr ⟨_, _, (shows.verdict dependable h.judges).1, .inl there⟩
  | downloaded absent free marks asks plays smooth took closed shows =>
    exact .inr ⟨_, _, (shows.verdict dependable h.judges).1, .inr ⟨rfl, closed.own⟩⟩
  | brokeOff => exact .inl rfl
  | conflict => exact .inl rfl

end OnDisk

/-- An empty root has no entries, and no key is held. -/
theorem EmptyRoot.view {W : Type} {s : DirectoryStore} {disk : Part W Disk} {w : W}
    (h : EmptyRoot s.root (disk.get w)) :
    (s.view disk).sound w ∧
      ∀ key, (s.view disk).entry w key = none ∧ ¬ (s.view disk).held w key := by
  have hs := h.shelf
  refine ⟨⟨[], .empty, hs, .bare _⟩, fun key => ⟨?_, ?_⟩⟩
  · change s.entryAt (disk.get w) key = none
    rw [DirectoryStore.entryAt]
    split
    · rename_i id hf
      exact absurd (hs.mem_of_find hf) List.not_mem_nil
    · rfl
  · rintro ⟨id, hid⟩
    exact absurd (hs.stages_iff.mp hid) List.not_mem_nil

end ImageCache
