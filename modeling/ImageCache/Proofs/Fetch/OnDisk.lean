import ImageCache.DirectoryStore.Collaborator
import ImageCache.Proofs.DirectoryStore.Prune
import ImageCache.Proofs.Fetch.WriterLife

namespace ImageCache

open Disk Fetcher

variable {W S I E : Type}

theorem OpenFile.read_disk (n : Nat) (f : OpenFile) (d : Disk) :
    (OpenFile.read n (f, d)).2.2 = d := by
  rw [OpenFile.read]
  split <;> rfl

/-- The store of the fetcher is this directory store, and whatever else the fetcher works with
leaves the names and bytes on the disk alone. -/
structure OnDisk (f : Fetcher W OpenFile StagedEntry S I E) (s : DirectoryStore)
    (disk : Part W Disk) (note : Notice → StateM W Unit) : Prop where
  store : f.store = s.byteStore disk note
  lawful : disk.Lawful
  note : ∀ n w, Alike (disk.get w) (disk.get (note n w).2)
  notice : ∀ n w, Alike (disk.get w) (disk.get (f.notice n w).2)
  onEvent : ∀ r e w, Alike (disk.get w) (disk.get (f.observer.onEvent r e w).2)
  transfer : ∀ url w, Alike (disk.get w) (disk.get (f.source.transfer url w).2)
  openStream : ∀ url w, Alike (disk.get w) (disk.get (f.source.openStream url w).2)
  stream : ∀ n stream w,
    Alike (disk.get w) (disk.get (f.source.stream.read n (stream, w)).2.2)
  lookUp : ∀ key w, Alike (disk.get w) (disk.get (f.memory.get key w).2)
  keep : ∀ key image w, Alike (disk.get w) (disk.get (f.memory.set key image w).2)
  forgetAll : ∀ w, Alike (disk.get w) (disk.get (f.memory.clear w).2)

namespace OnDisk

variable {f : Fetcher W OpenFile StagedEntry S I E} {s : DirectoryStore} {disk : Part W Disk}
  {note : Notice → StateM W Unit} {w after : W}

/-- An operation of the store on the world is one on its disk. -/
theorem run_disk (h : OnDisk f s disk note) {α : Type} {op : StateM Disk α} {a : α}
    (hr : disk.run op w = (a, after)) : op (disk.get w) = (a, disk.get after) := by
  obtain ⟨⟨b, d⟩, ho⟩ : ∃ out, op (disk.get w) = out := ⟨_, rfl⟩
  rw [Part.run, ho] at hr
  obtain ⟨rfl, rfl⟩ := Prod.mk.inj hr
  rw [ho, h.lawful.get_set]

theorem runWith_disk (h : OnDisk f s disk note) {H α : Type} {op : H × Disk → α × (H × Disk)}
    {handle next : H} {a : α} (hr : disk.runWith op (handle, w) = (a, (next, after))) :
    op (handle, disk.get w) = (a, (next, disk.get after)) := by
  obtain ⟨⟨b, ⟨left, d⟩⟩, ho⟩ : ∃ out, op (handle, disk.get w) = out := ⟨_, rfl⟩
  rw [Part.runWith, ho] at hr
  obtain ⟨rfl, hn⟩ := Prod.mk.inj hr
  obtain ⟨rfl, rfl⟩ := Prod.mk.inj hn
  rw [ho, h.lawful.get_set]

/-- What handles no writer changes no name and no bytes. -/
theorem does_alike (h : OnDisk f s disk note) {deed : Deed OpenFile StagedEntry S I}
    (hd : deed.handlesWriter = false) (does : f.Does w deed after) :
    Alike (disk.get w) (disk.get after) := by
  cases deed with
  | read key reply =>
    have hr := does
    rw [Does, h.store] at hr
    have hs : s.read key (disk.get w) = (reply, disk.get after) := h.run_disk hr
    have ha := s.read_alike key (disk.get w)
    rwa [hs] at ha
  | peruse entry n reply next =>
    have hr := does
    rw [Does, h.store] at hr
    have ho : OpenFile.read n (entry, disk.get w) = (reply, (next, disk.get after)) :=
      h.runWith_disk hr
    have he := OpenFile.read_disk n entry (disk.get w)
    rw [ho] at he
    exact he ▸ .refl _
  | rewind entry reply next =>
    have hr := does
    rw [Does, h.store] at hr
    have ho : OpenFile.rewind (entry, disk.get w) = (reply, (next, disk.get after)) :=
      h.runWith_disk hr
    have he : disk.get w = disk.get after := congrArg (·.2.2) ho
    exact he ▸ .refl _
  | transfer url program =>
    have ha := h.transfer url w
    rwa [show f.source.transfer url w = _ from does] at ha
  | openStream url reply =>
    have ha := h.openStream url w
    rwa [show f.source.openStream url w = _ from does] at ha
  | stream stream n reply next =>
    have ha := h.stream n stream w
    rwa [show f.source.stream.read n (stream, w) = _ from does] at ha
  | lookUp key reply =>
    have ha := h.lookUp key w
    rwa [show f.memory.get key w = _ from does] at ha
  | keep key image =>
    have ha := h.keep key image w
    rwa [show f.memory.set key image w = _ from does] at ha
  | forgetAll =>
    have ha := h.forgetAll w
    rwa [show f.memory.clear w = _ from does] at ha
  | event r e =>
    have ha := h.onEvent r e w
    rwa [show f.observer.onEvent r e w = _ from does] at ha
  | notice n =>
    have ha := h.notice n w
    rwa [show f.notice n w = _ from does] at ha
  | stage key reply => cases hd
  | offer writer bytes reply next => cases hd
  | flush writer reply next => cases hd
  | commit writer reply => cases hd
  | abort writer reply => cases hd
  | maintain outcome => cases hd

theorem leads_alike (h : OnDisk f s disk note) {deeds : List (Deed OpenFile StagedEntry S I)}
    (hd : ∀ deed ∈ deeds, deed.handlesWriter = false) (leads : f.Leads w deeds after) :
    Alike (disk.get w) (disk.get after) :=
  leads_keeps (P := fun u => Alike (disk.get w) (disk.get u))
    (fun deed hm _ _ alike does => alike.trans (h.does_alike (hd deed hm) does)) (.refl _) leads

/-- As the writer of a file is given bytes, they go behind those that the file has. -/
theorem conveys_disk (h : OnDisk f s disk note) {key : String} {id : FileId} {n : Nat}
    {writer last : StagedEntry} {talk : Talk} {deeds : List (Deed OpenFile StagedEntry S I)}
    (conveys : Conveys writer talk deeds last) (leads : f.Leads w deeds after)
    (hw : writer = s.handle key id n) (hid : id < (disk.get w).files.size)
    (hn : ((disk.get w).file id).bytes.size = n) :
    ∃ m, last = s.handle key id m ∧
      Grows id (Deed.accepted deeds) (disk.get w) (disk.get after) := by
  induction conveys generalizing w n with
  | nil writer =>
    obtain rfl : w = after := leads
    exact ⟨n, hw, .refl id _⟩
  | @cons writer next last said talk deeds more first rest ih =>
    obtain ⟨between, hl, hm⟩ := leads_append.mp leads
    subst hw
    -- The handle always stands at the end of its file, so that nothing is written over.
    have step : ∃ m, next = s.handle key id m ∧ ((disk.get between).file id).bytes.size = m ∧
        Grows id (Deed.accepted deeds) (disk.get w) (disk.get between) := by
      cases first with
      | write bytes reply =>
        have hr := leads_single.mp hl
        rw [Does, h.store] at hr
        have ho : StagedEntry.write bytes (s.handle key id n, disk.get w) =
          (reply, (next, disk.get between)) := h.runWith_disk hr
        obtain ⟨d', hd, grows⟩ := s.write_end key hid hn bytes
        rw [hd] at ho
        obtain ⟨rfl, hpair⟩ := Prod.mk.inj ho
        obtain ⟨rfl, rfl⟩ := Prod.mk.inj hpair
        refine ⟨n + bytes.size, rfl, ?_, ?_⟩
        · rw [grows.own, ByteArray.size_append, hn]
        · rw [Hears.accepted_eq (.write _ _ _ _), Exchange.taken, ByteArray.extract_zero_size]
          exact grows
      | flush reply =>
        have hr := leads_single.mp hl
        rw [Does, h.store] at hr
        have ho : StagedEntry.flush (s.handle key id n, disk.get w) =
          (reply, (next, disk.get between)) := h.runWith_disk hr
        obtain ⟨rfl, hpair⟩ := Prod.mk.inj ho
        obtain ⟨rfl, hsame⟩ := Prod.mk.inj hpair
        refine ⟨n, rfl, by rw [← hsame, hn], ?_⟩
        rw [Hears.accepted_eq (.flush _ _ _), ← hsame]
        exact .refl id _
      | horizon k =>
        obtain rfl : w = between := hl
        exact ⟨n, rfl, hn, .refl id _⟩
    obtain ⟨m, rfl, hsize, grows⟩ := step
    obtain ⟨k, hk, grows'⟩ := ih hm rfl (grows.size ▸ hid) hsize
    rw [Deed.accepted_append]
    exact ⟨k, hk, grows.trans grows'⟩

variable {entries : Entries} {key : String} {id : FileId}

/-- A writer is had with a new file staged for it, and else the disk is as it was. -/
theorem stage_disk (h : OnDisk f s disk note) (hs : Shelf s.root (disk.get w) entries)
    (hk : PlainKey key) {reply : Except Fault (Option StagedEntry)}
    (does : f.Does w (.stage key reply) after) :
    (disk.get after = disk.get w ∧ ∀ writer, reply ≠ .ok (some writer)) ∨
      (reply = .ok (some (s.handle key (disk.get w).files.size 0)) ∧
        (disk.get after).files = (disk.get w).files.push ⟨.empty, (disk.get w).now + 1⟩ ∧
        Shelf s.root (disk.get after)
          (entries ++ [(stagedName key, (disk.get w).files.size)])) := by
  rw [Does, h.store] at does
  have ho : s.stage key (disk.get w) = (reply, disk.get after) := h.run_disk does
  rcases s.stage_cases hs hk with ⟨none, hst, hno⟩ | ⟨hn, hm⟩
  · rw [hst] at ho
    obtain ⟨rfl, hd⟩ := Prod.mk.inj ho
    exact .inl ⟨hd.symm, hno⟩
  · obtain ⟨d', hst, hf, -, hs'⟩ := s.stage_free hs hk hn hm
    rw [hst] at ho
    obtain ⟨rfl, rfl⟩ := Prod.mk.inj ho
    exact .inr ⟨rfl, hf, hs'⟩

/-- A commit puts the staged file in the place of the entry. -/
theorem commit_disk (h : OnDisk f s disk note) (hs : Shelf s.root (disk.get w) entries)
    (hk : PlainKey key) (hm : (stagedName key, id) ∈ entries) {n : Nat}
    {reply : Except Fault Unit} (does : f.Does w (.commit (s.handle key id n) reply) after) :
    reply = .ok () ∧ (disk.get after).files = (disk.get w).files ∧
      Shelf s.root (disk.get after) (entries.renamed (stagedName key) key) := by
  obtain ⟨d', hc, hf, -, hs'⟩ := s.commit_some hs hk hm id n
  have hr : disk.run (s.handle key id n).commit w = ((.ok (), none), disk.set d' w) := by
    simp only [Part.run, hc]
  rw [Does, h.store] at does
  simp only [DirectoryStore.byteStore, DirectoryStore.commit, bind, StateT.bind, hr] at does
  obtain ⟨rfl, rfl⟩ := Prod.mk.inj does
  rw [h.lawful.get_set]
  exact ⟨rfl, hf, hs'⟩

/-- An abort removes the staged file. -/
theorem abort_disk (h : OnDisk f s disk note) (hs : Shelf s.root (disk.get w) entries)
    {n : Nat} {reply : Except Fault Unit}
    (hm : (stagedName key, id) ∈ entries)
    (does : f.Does w (.abort (s.handle key id n) reply) after) :
    (disk.get after).files = (disk.get w).files ∧
      Shelf s.root (disk.get after) (entries.without (stagedName key)) := by
  rw [Does, h.store] at does
  have ho : (s.handle key id n).abort (disk.get w) = (reply, disk.get after) := h.run_disk does
  have hd : disk.get after = (disk.get w).unlink (s.root ++ [stagedName key]) := by
    have ha := DirectoryStore.abort_disk (s.handle key id n) (disk.get w)
    rwa [ho, DirectoryStore.handle, hs.remove_some hm] at ha
  rw [hd]
  exact ⟨rfl, hs.unlink (stagedName key)⟩

end OnDisk

end ImageCache
