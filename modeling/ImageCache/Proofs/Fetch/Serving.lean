import ImageCache.Proofs.DirectoryStore.Refinement
import ImageCache.Proofs.Fetch.DirectoryView
import ImageCache.Proofs.Fetch.Integrity
import ImageCache.Proofs.Fetch.Outcome
import Mathlib

namespace ImageCache

open Fetcher

variable {W R Wr S I E : Type}

/-- With a sink that never fails the transfer ends well, once the sink took these bytes. -/
def Transfer.Sends (t : Transfer) (bytes : ByteArray) : Prop :=
  ∀ (talk : Talk) (result : Except Fault Unit), t.Plays talk result →
    (∀ said ∈ talk, said.Smooth) → result = .ok () ∧ talk.accepted = bytes

namespace Writing

theorem pour_sends {fuel : Nat} {bytes : ByteArray} (h : bytes.size < fuel) :
    Transfer.Sends (pour fuel bytes) bytes := by
  -- Every smooth offer is taken in part at least, so as many offers as there are bytes suffice.
  induction fuel generalizing bytes with
  | zero => exact absurd h (Nat.not_lt_zero _)
  | succ fuel ih =>
    intro talk result plays smooth
    rw [pour] at plays
    by_cases hz : bytes.size = 0
    · rw [if_pos hz] at plays
      cases plays with
      | done => exact ⟨rfl, (ByteArray.size_eq_zero_iff.mp hz).symm⟩
    · rw [if_neg hz] at plays
      cases plays with
      | @ask _ _ reply talk _ rest =>
        obtain ⟨⟨n, hreply, hn, hpos⟩, hrest⟩ := List.forall_mem_cons.mp smooth
        obtain rfl : reply = .ok n := hreply
        have hn0 : 0 < n := hpos (Nat.pos_of_ne_zero hz)
        change (if n = 0 then pure (.error .refusedBytes)
          else pour fuel (bytes.extract n bytes.size)).Plays talk result at rest
        rw [if_neg (Nat.ne_of_gt hn0)] at rest
        have hleft : (bytes.extract n bytes.size).size < fuel := by
          rw [ByteArray.size_extract]
          omega
        obtain ⟨rfl, took⟩ := ih hleft talk result rest hrest
        refine ⟨rfl, ?_⟩
        change bytes.extract 0 n ++ Talk.accepted talk = bytes
        rw [took, ← (Piece.front n bytes).split]

theorem writeAll_sends (bytes : ByteArray) : Transfer.Sends (writeAll bytes) bytes := by
  intro talk result plays smooth
  cases plays with
  | @ask _ _ n talk _ rest =>
    obtain ⟨-, hrest⟩ := List.forall_mem_cons.mp smooth
    have hfuel : bytes.size < n + bytes.size + 1 := by omega
    obtain ⟨rfl, took⟩ := pour_sends hfuel talk result rest hrest
    refine ⟨rfl, ?_⟩
    change ByteArray.empty ++ Talk.accepted talk = bytes
    rw [ByteArray.empty_append, took]

end Writing

/-- In these worlds the source serves the bytes at the address. Only what is asked of it can change
that. -/
structure Fetcher.Serves (f : Fetcher W R Wr S I E) (url : String) (bytes : ByteArray)
    (serving : W → Prop) : Prop where
  stays : ∀ {w w' : W} {deed : Deed R Wr S I}, serving w → deed.asksSource = false →
    f.Does w deed w' → serving w'
  sends : ∀ {w w' : W} {program : Transfer}, serving w → f.Does w (.transfer url program) w' →
    program.Sends bytes

variable {f : Fetcher W R Wr S I E} {v : StoreView W R Wr} {serving : W → Prop} {w w' : W}
  {r : Request} {bytes : ByteArray}

theorem Fetcher.Serves.program (h : f.Serves r.remoteUrl bytes serving) (hw : serving w)
    {deeds : List (Deed R Wr S I)} {program : Transfer} (leads : f.Leads w deeds w')
    (asks : asked deeds = [.transfer r.remoteUrl program]) : program.Sends bytes := by
  induction deeds generalizing w with
  | nil => cases asks
  | cons deed rest ih =>
    obtain ⟨next, does, hr⟩ := leads
    cases hd : deed.asksSource with
    | false =>
      rw [asked, List.filter_cons_of_neg (by simp [hd])] at asks
      exact ih (h.stays hw hd does) hr asks
    | true =>
      rw [asked, List.filter_cons_of_pos hd] at asks
      obtain ⟨rfl, -⟩ := List.cons.inj asks
      exact h.sends hw does

/-- Where the store has nothing and the source serves the bytes, they are downloaded. -/
theorem fetch_served (h : Dependable f v) (hs : v.sound w)
    (absent : v.search w r.places = none) (free : ¬ v.held w r.fileKey)
    (serves : f.Serves r.remoteUrl bytes serving) (hw : serving w) :
    ∃ result left, f.fetch r w = ((result, left.request), left.world) ∧
      landmarks (f.trace r w) = [.committed] ∧ Deed.accepted (f.trace r w) = bytes ∧
      v.Closed r.fileKey (some bytes) w left.world ∧ Shows f v r bytes .network result left := by
  obtain ⟨result, left, hf, leads, fares⟩ := fetch_fares h hs r
  refine ⟨result, left, hf, ?_⟩
  generalize f.trace r w = deeds at leads fares
  cases fares with
  | stored there =>
    rw [absent] at there
    cases there
  | downloaded absent free marks asks plays smooth took closed shows =>
    obtain ⟨-, ht⟩ := serves.program hw leads asks _ _ plays smooth
    rw [ht] at took closed shows
    exact ⟨marks, took, closed, shows⟩
  | brokeOff absent free marks asks plays smooth same =>
    obtain ⟨hc, -⟩ := serves.program hw leads asks _ _ plays smooth
    cases hc
  | conflict absent held plain same => exact absurd held free

namespace Rehearsal

/-- Whatever a rehearsed fetcher does, the same resources are served. -/
theorem tileFetcher_served (s : DirectoryStore) {w w' : World Disk Tile}
    {deed : Deed OpenFile StagedEntry Stream Tile} (does : (tileFetcher s).Does w deed w') :
    w'.served = w.served := by
  cases deed with
  | read key reply => exact (congrArg (·.2.served) does).symm
  | stage key reply => exact (congrArg (·.2.served) does).symm
  | peruse entry n reply after => exact (congrArg (·.2.2.served) does).symm
  | rewind entry reply after => exact (congrArg (·.2.2.served) does).symm
  | offer writer bytes reply after => exact (congrArg (·.2.2.served) does).symm
  | flush writer reply after => exact (congrArg (·.2.2.served) does).symm
  | commit writer reply =>
    refine (congrArg (·.2.served) does).symm.trans ?_
    change (DirectoryStore.commit World.tierPart World.note writer w).2.served = w.served
    simp only [DirectoryStore.commit, bind, StateT.bind]
    rw [Part.run]
    generalize writer.commit _ = out
    obtain ⟨⟨reply, left⟩, d⟩ := out
    cases left with
    | none => rfl
    | some e => rfl
  | abort writer reply => exact (congrArg (·.2.served) does).symm
  | maintain outcome =>
    refine (congrArg (·.2.served) does).symm.trans ?_
    change (s.maintain World.tierPart World.note w).2.served = w.served
    simp only [DirectoryStore.maintain, bind, StateT.bind]
    rw [Part.run]
    generalize s.prune _ = out
    obtain ⟨reply, d⟩ := out
    cases reply with
    | ok n => rfl
    | error e => rfl
  | transfer url program => exact (congrArg (·.2.served) does).symm
  | openStream url reply => exact (congrArg (·.2.served) does).symm
  | stream stream n reply after => exact (congrArg (·.2.2.served) does).symm
  | lookUp key reply => exact (congrArg (·.2.served) does).symm
  | keep key image => exact (congrArg (·.2.served) does).symm
  | forgetAll => exact (congrArg (·.2.served) does).symm
  | event r e => exact (congrArg (·.2.served) does).symm
  | notice n => exact (congrArg (·.2.served) does).symm

theorem tileFetcher_serves (s : DirectoryStore) {url : String} {served : Served}
    (h : served.transfer.Sends bytes) :
    (tileFetcher s).Serves url bytes fun w => w.servedAt url = served where
  stays hw _ does := by
    rw [← hw, World.servedAt, tileFetcher_served s does, World.servedAt]
  sends := by
    rintro w w' program hw does
    obtain rfl : (w.servedAt url).transfer = program := congrArg (·.1) does
    exact hw.symm ▸ h

def dripping : Stream := ⟨smallTile, 0, [], [.atMost 5], none⟩

/-- A world with an empty disk and a tile to download or to stream. -/
def oneTile : World Disk Tile :=
  (World.start Disk.blank ⟨0, 0⟩).serve "tile" ⟨none, none, some dripping⟩

theorem oneTile_served (h : r.remoteUrl = "tile") :
    oneTile.servedAt r.remoteUrl = ⟨none, none, some dripping⟩ := by
  rw [h]
  rfl

theorem oneTile_serves (url : String) : (tileFetcher patient).Serves url smallTile
    fun w => w.servedAt url = ⟨none, none, some dripping⟩ :=
  tileFetcher_serves patient (Writing.writeAll_sends smallTile)

theorem oneTile_dependable :
    Dependable (tileFetcher patient) (patient.view World.tierPart) :=
  (tileFetcher_onDisk patient).dependable patient_roomy

theorem oneTile_bare : (patient.view World.tierPart).sound oneTile ∧
    ∀ key, (patient.view World.tierPart).entry oneTile key = none ∧
      ¬ (patient.view World.tierPart).held oneTile key :=
  patient_empty.view

theorem oneTile_judges :
    Judges (tileFetcher patient) (patient.view World.tierPart) Tile.judgement :=
  Codec.Seeks.judges Tile.codec_seeks oneTile_dependable

/-- Whoever asks for the tile gets it from the network, and the store has it from then on. -/
theorem oneTile_fetched (h : r.remoteUrl = "tile") :
    ((tileFetcher patient).fetch r oneTile).1.1 = Tile.judgement.result r smallTile .network ∧
      landmarks ((tileFetcher patient).trace r oneTile) = [.committed] ∧
      (patient.view World.tierPart).Closed r.fileKey (some smallTile) oneTile
        ((tileFetcher patient).fetch r oneTile).2 := by
  obtain ⟨sound, bare⟩ := oneTile_bare
  have absent : (patient.view World.tierPart).search oneTile r.places = none :=
    StoreView.search_absent fun place _ => (bare place.1).1
  obtain ⟨result, left, hf, marks, -, closed, shows⟩ :=
    fetch_served oneTile_dependable sound absent (bare r.fileKey).2
      (oneTile_serves r.remoteUrl) (oneTile_served h)
  obtain ⟨rfl, -⟩ := shows.verdict oneTile_dependable oneTile_judges
  rw [hf]
  exact ⟨rfl, marks, closed⟩

theorem thumbnail_fetched :
    ((tileFetcher patient).fetch thumbnail oneTile).1.1 =
        .ok (some ⟨⟨1, 1, 4, 2, 33⟩, .network, ⟨⟨4, 4⟩, ⟨1, 1⟩, 4⟩⟩) ∧
      landmarks ((tileFetcher patient).trace thumbnail oneTile) = [.committed] ∧
      (patient.view World.tierPart).Closed thumbnail.fileKey (some smallTile) oneTile
        ((tileFetcher patient).fetch thumbnail oneTile).2 := by
  obtain ⟨result, marks, closed⟩ := oneTile_fetched (r := thumbnail) rfl
  refine ⟨result.trans ?_, marks, closed⟩
  cbv

end Rehearsal

end ImageCache
