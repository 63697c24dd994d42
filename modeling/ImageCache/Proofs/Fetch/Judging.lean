import ImageCache.Proofs.Fetch.Course
import ImageCache.Proofs.Fetch.Dependable

namespace ImageCache

open Fetcher

variable {W R Wr S I E : Type}

/-- In every entry that is open at its front the codec finds what the judgement says of its bytes.
-/
structure Judges (f : Fetcher W R Wr S I E) (v : StoreView W R Wr) (j : Judgement I E) : Prop where
  bounds : ∀ {entry : R} {w : W} {bytes : ByteArray}, v.sound w → v.ahead bytes (entry, w) bytes →
    (f.bufferedEntry.run f.codec.boundsSeekable (Buffered.start entry, w)).1 = j.size bytes
  decode : ∀ {entry : R} {w : W} {bytes : ByteArray} (factor : UInt32), v.sound w →
    v.ahead bytes (entry, w) bytes →
    (f.bufferedEntry.run (f.codec.decodeSeekable factor) (Buffered.start entry, w)).1 =
      j.image factor bytes

variable {f : Fetcher W R Wr S I E} {v : StoreView W R Wr} {j : Judgement I E} {r : Request}
  {w : W} {bytes : ByteArray}

def StoreView.Buffered (v : StoreView W R Wr) (whole : ByteArray) (s : Buffered R × W)
    (ahead : ByteArray) : Prop :=
  Buffered.Ahead (fun s ahead => v.sound s.2 ∧ v.ahead whole s ahead) (Buffered.attach s) ahead

theorem Dependable.buffered_replays (h : Dependable f v) (whole : ByteArray) :
    f.bufferedEntry.Replays whole (v.Buffered whole) :=
  (Buffered.replays (h.replays whole)).remap Buffered.attach_detach

theorem StoreView.buffered_start {entry : R} (sound : v.sound w)
    (ahead : v.ahead bytes (entry, w) bytes) : v.Buffered bytes (Buffered.start entry, w) bytes :=
  Buffered.ahead_start ⟨sound, ahead⟩

/-- A codec that goes by the bytes wherever it can start over judges entries, too. -/
theorem Codec.Seeks.judges (codec : f.codec.Seeks j) (h : Dependable f v) : Judges f v j where
  bounds sound ahead := codec.bounds (h.buffered_replays _) (v.buffered_start sound ahead)
  decode factor sound ahead :=
    codec.decode factor (h.buffered_replays _) (v.buffered_start sound ahead)

theorem Dependable.rewound (h : Dependable f v) {entry : R} {α : Type} {p : SeekReading α} {a : α}
    {handle back : Buffered R} {w₁ w₂ : W} {reply : Except Fault Unit} (sound : v.sound w)
    (ahead : v.ahead bytes (entry, w) bytes)
    (pass : f.bufferedEntry.run p (Buffered.start entry, w) = (a, (handle, w₁)))
    (rewind : f.bufferedEntry.rewind (handle, w₁) = (reply, (back, w₂))) :
    reply = .ok () ∧ v.sound w₂ ∧
      ∃ entry', back = Buffered.start entry' ∧ v.ahead bytes (entry', w₂) bytes := by
  obtain ⟨rest, hrest⟩ := (h.buffered_replays bytes).run p (v.buffered_start sound ahead)
  rw [pass] at hrest
  obtain ⟨rest, below, -⟩ := hrest
  obtain ⟨⟨entry', w'⟩, hr, sound', ahead'⟩ := (h.replays bytes).rewind below
  replace hr : f.store.entry.rewind (handle.inner, w₁) = (.ok (), (entry', w')) := hr
  rw [bufferedEntry_rewind, Buffered.rewind, hr] at rewind
  obtain ⟨rfl, hpair⟩ := Prod.mk.inj rewind
  obtain ⟨rfl, rfl⟩ := Prod.mk.inj hpair
  exact ⟨rfl, sound', entry', rfl, ahead'⟩

/-- Decoding an entry comes to the verdict on its bytes. -/
theorem Decode.verdict (h : Dependable f v) (judges : Judges f v j) {entry : R}
    {deeds : List (Deed R Wr S I)} {outcome : Except (FetchFault E) (I × DecodePlan)}
    {left : Session W} (sound : v.sound w) (ahead : v.ahead bytes (entry, w) bytes)
    (decode : Decode f entry ⟨r, w⟩ deeds outcome left) :
    outcome = (j.verdict r.target bytes).mapError .decode ∧ left.request = j.record bytes r := by
  have hsize := judges.bounds sound ahead
  -- The event between the passes leaves the entry where it is.
  have second : ∀ {w₁ w₂ w₃ : W} {handle back : Buffered R} {origin found : Size},
      f.bufferedEntry.run f.codec.boundsSeekable (Buffered.start entry, w) =
        (.ok found, (handle, w₁)) →
      f.bufferedEntry.rewind (handle, w₁) = (.ok (), (back, w₂)) →
      f.observer.onEvent (r.recordOrigin origin)
        (.decoding origin (DecodePlan.choose origin r.target).factor) w₂ = ((), w₃) →
      (f.bufferedEntry.run (f.codec.decodeSeekable (DecodePlan.choose origin r.target).factor)
        (back, w₃)).1 = j.image (DecodePlan.choose origin r.target).factor bytes := by
    intro w₁ w₂ w₃ handle back origin found pass rewind told
    obtain ⟨-, sound₂, entry', rfl, ahead'⟩ := h.rewound sound ahead pass rewind
    replace told : f.Does w₂ (.event (r.recordOrigin origin) (.decoding origin _)) w₃ := told
    have keeps := h.quiet sound₂ rfl told
    exact judges.decode _ keeps.sound (keeps.ahead _ _ _ ahead')
  cases decode with
  | noSize bounds perusals =>
    rw [bounds] at hsize
    rw [Judgement.verdict_noSize hsize.symm, Judgement.record_noSize hsize.symm]
    exact ⟨rfl, rfl⟩
  | noRewind bounds rewind perusals =>
    obtain ⟨hr, -⟩ := h.rewound sound ahead bounds rewind
    cases hr
  | noImage bounds rewind told image perusals =>
    have himage := second bounds rewind told
    rw [bounds] at hsize
    rw [image] at himage
    rw [Judgement.verdict_noImage hsize.symm himage.symm, Judgement.record_size hsize.symm]
    exact ⟨rfl, rfl⟩
  | image bounds rewind told decode perusals =>
    have himage := second bounds rewind told
    rw [bounds] at hsize
    rw [decode] at himage
    rw [Judgement.verdict_image hsize.symm himage.symm, Judgement.record_size hsize.symm]
    exact ⟨rfl, rfl⟩

end ImageCache
