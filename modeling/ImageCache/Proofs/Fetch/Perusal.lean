import ImageCache.Proofs.Fetch.Talk

namespace ImageCache

open Fetcher

variable {W R Wr S I E α : Type}

def ReadQuery.fault? : (q : ReadQuery) × q.Reply → Option Fault
  | ⟨.upTo _, .error e⟩ => some e
  | _ => none

/-- That a reader could not start over is no fault of a read. -/
def SeekQuery.fault? : (q : SeekQuery) × q.Reply → Option Fault
  | ⟨.plain q, reply⟩ => ReadQuery.fault? ⟨q, reply⟩
  | ⟨.rewind, _⟩ => none

namespace Deed

def isPerusal : Deed R Wr S I → Bool
  | .peruse _ _ _ _ => true
  | .rewind _ _ _ => true
  | _ => false

def readFault? : Deed R Wr S I → Option Fault
  | .peruse _ _ (.error e) _ => some e
  | .stream _ _ (.error e) _ => some e
  | _ => none

end Deed

def readFaults (deeds : List (Deed R Wr S I)) : List Fault := deeds.filterMap Deed.readFault?

@[simp]
theorem readFaults_nil : readFaults ([] : List (Deed R Wr S I)) = [] := rfl

@[simp]
theorem readFaults_append (first second : List (Deed R Wr S I)) :
    readFaults (first ++ second) = readFaults first ++ readFaults second :=
  List.filterMap_append

namespace Fetcher

variable {f : Fetcher W R Wr S I E}

theorem recorded_peruse {entry next : R} {w after : W} {n : Nat} {reply : Except Fault ByteArray}
    (record : List (Deed R Wr S I))
    (h : f.store.entry.read n (entry, w) = (reply, (next, after))) :
    f.recorded.store.entry.read n (entry, (w, record)) =
      (reply, (next, (after, record ++ [.peruse entry n reply next]))) := by
  simp [recorded, ByteStore.recorded, notedWith, h]

theorem recorded_rewind {entry next : R} {w after : W} {reply : Except Fault Unit}
    (record : List (Deed R Wr S I)) (h : f.store.entry.rewind (entry, w) = (reply, (next, after))) :
    f.recorded.store.entry.rewind (entry, (w, record)) =
      (reply, (next, (after, record ++ [.rewind entry reply next]))) := by
  simp [recorded, ByteStore.recorded, notedWith, h]

theorem bufferedEntry_read (n : Nat) (handle : Buffered R) (w : W) :
    f.bufferedEntry.read n (handle, w) =
      ((Buffered.read f.store.entry.toReader n ⟨(handle.inner, w), handle.ahead⟩).1,
        Buffered.detach
          (Buffered.read f.store.entry.toReader n ⟨(handle.inner, w), handle.ahead⟩).2) := rfl

theorem bufferedEntry_rewind (handle : Buffered R) (w : W) :
    f.bufferedEntry.rewind (handle, w) =
      ((Buffered.rewind f.store.entry ⟨(handle.inner, w), handle.ahead⟩).1,
        Buffered.detach (Buffered.rewind f.store.entry ⟨(handle.inner, w), handle.ahead⟩).2) := rfl

/-- A buffered entry asks the entry below it at most once to answer a query. -/
theorem buffered_read (handle : Buffered R) (n : Nat) (w : W) (record : List (Deed R Wr S I)) :
    ∃ deeds reply next after, f.bufferedEntry.read n (handle, w) = (reply, (next, after)) ∧
      f.recorded.bufferedEntry.read n (handle, (w, record)) =
        (reply, (next, (after, record ++ deeds))) ∧
      f.Leads w deeds after ∧ (∀ deed ∈ deeds, deed.isPerusal) ∧
      readFaults deeds = [⟨.upTo n, reply⟩].filterMap ReadQuery.fault? := by
  by_cases ha : handle.ahead = ByteArray.empty
  · by_cases hn : Buffered.blockSize ≤ n
    · obtain ⟨⟨reply, entry, after⟩, hr⟩ :
        ∃ out, f.store.entry.read n (handle.inner, w) = out := ⟨_, rfl⟩
      refine ⟨[.peruse handle.inner n reply entry], reply, ⟨entry, handle.ahead⟩, after, ?_, ?_,
        leads_single.mpr hr, by simp [Deed.isPerusal], by cases reply <;> rfl⟩
      · simp [bufferedEntry_read, Buffered.read, Buffered.detach, ha, hn, hr]
      · simp [bufferedEntry_read, Buffered.read, Buffered.detach, ha, hn, recorded_peruse record hr]
    · obtain ⟨⟨reply, entry, after⟩, hr⟩ :
        ∃ out, f.store.entry.read Buffered.blockSize (handle.inner, w) = out := ⟨_, rfl⟩
      have hp := recorded_peruse record hr
      cases reply with
      | ok block =>
        refine ⟨[.peruse handle.inner Buffered.blockSize (.ok block) entry],
          .ok (block.extract 0 n), ⟨entry, block.extract n block.size⟩, after, ?_, ?_,
          leads_single.mpr hr, by simp [Deed.isPerusal], rfl⟩
        · simp [bufferedEntry_read, Buffered.read, Buffered.detach, ha, hn, hr]
        · simp [bufferedEntry_read, Buffered.read, Buffered.detach, ha, hn, hp]
      | error e =>
        refine ⟨[.peruse handle.inner Buffered.blockSize (.error e) entry], .error e,
          ⟨entry, handle.ahead⟩, after, ?_, ?_, leads_single.mpr hr, by simp [Deed.isPerusal], rfl⟩
        · simp [bufferedEntry_read, Buffered.read, Buffered.detach, ha, hn, hr]
        · simp [bufferedEntry_read, Buffered.read, Buffered.detach, ha, hn, hp]
  · refine ⟨[], .ok (handle.ahead.extract 0 n),
      ⟨handle.inner, handle.ahead.extract n handle.ahead.size⟩, w, ?_, ?_, leads_nil f w,
      by simp, rfl⟩
    · simp [bufferedEntry_read, Buffered.read, Buffered.detach, ha]
    · simp [bufferedEntry_read, Buffered.read, Buffered.detach, ha]

theorem buffered_rewind (handle : Buffered R) (w : W) (record : List (Deed R Wr S I)) :
    ∃ deeds reply next after, f.bufferedEntry.rewind (handle, w) = (reply, (next, after)) ∧
      f.recorded.bufferedEntry.rewind (handle, (w, record)) =
        (reply, (next, (after, record ++ deeds))) ∧
      f.Leads w deeds after ∧ (∀ deed ∈ deeds, deed.isPerusal) ∧ readFaults deeds = [] := by
  obtain ⟨⟨reply, entry, after⟩, hr⟩ : ∃ out, f.store.entry.rewind (handle.inner, w) = out :=
    ⟨_, rfl⟩
  have hp := recorded_rewind record hr
  cases reply with
  | ok _ =>
    refine ⟨[.rewind handle.inner (.ok ()) entry], .ok (), Buffered.start entry, after, ?_, ?_,
      leads_single.mpr hr, by simp [Deed.isPerusal], rfl⟩
    · simp [bufferedEntry_rewind, Buffered.rewind, Buffered.detach, Buffered.start, hr]
    · simp [bufferedEntry_rewind, Buffered.rewind, Buffered.detach, Buffered.start, hp]
  | error e =>
    refine ⟨[.rewind handle.inner (.error e) entry], .error e, ⟨entry, handle.ahead⟩, after, ?_, ?_,
      leads_single.mpr hr, by simp [Deed.isPerusal], rfl⟩
    · simp [bufferedEntry_rewind, Buffered.rewind, Buffered.detach, hr]
    · simp [bufferedEntry_rewind, Buffered.rewind, Buffered.detach, hp]

/-- A program of a codec run on an entry of a fetcher, and on one of the recorded fetcher. -/
theorem buffered_run (p : SeekReading α) (handle : Buffered R) (w : W)
    (record : List (Deed R Wr S I)) :
    ∃ deeds result next after, f.bufferedEntry.run p (handle, w) = (result, (next, after)) ∧
      f.recorded.bufferedEntry.run p (handle, (w, record)) =
        (result, (next, (after, record ++ deeds))) ∧
      f.Leads w deeds after ∧ (∀ deed ∈ deeds, deed.isPerusal) ∧
      readFaults deeds =
        (p.talk f.bufferedEntry.answer (handle, w)).filterMap SeekQuery.fault? := by
  induction p generalizing handle w record with
  | done a =>
    exact ⟨[], a, handle, w, rfl, by simp [SeekableReader.run], leads_nil f w, by simp, rfl⟩
  | ask q next ih =>
    -- A single query first; what is left of the program goes on with the handle it leaves.
    have answered : ∃ deeds reply middle between,
        f.bufferedEntry.answer q (handle, w) = (reply, (middle, between)) ∧
        f.recorded.bufferedEntry.answer q (handle, (w, record)) =
          (reply, (middle, (between, record ++ deeds))) ∧
        f.Leads w deeds between ∧ (∀ deed ∈ deeds, deed.isPerusal) ∧
        readFaults deeds = [⟨q, reply⟩].filterMap SeekQuery.fault? := by
      match q with
      | .plain (.upTo n) => exact buffered_read handle n w record
      | .plain .horizon =>
        refine ⟨[], f.bufferedEntry.horizon (handle, w), handle, w, rfl, ?_, leads_nil f w,
          by simp, rfl⟩
        simp [SeekableReader.answer, Reader.answer, bufferedEntry, SeekableReader.remap,
          Reader.remap, Buffered.reader, Buffered.attach, recorded, ByteStore.recorded]
      | .rewind => exact buffered_rewind handle w record
    obtain ⟨deeds, reply, middle, between, ha, hr, hl, hp, hf⟩ := answered
    obtain ⟨more, result, last, after, hs, hrs, hl', hp', hf'⟩ :=
      ih reply middle between (record ++ deeds)
    refine ⟨deeds ++ more, result, last, after, ?_, ?_, leads_append.mpr ⟨between, hl, hl'⟩,
      List.forall_mem_append.mpr ⟨hp, hp'⟩, ?_⟩
    · rw [SeekableReader.run, Dialogue.run_ask, ha]
      exact hs
    · rw [SeekableReader.run, Dialogue.run_ask, hr, ← List.append_assoc]
      exact hrs
    · rw [readFaults_append, hf, hf', ← List.filterMap_append, Dialogue.talk, ha]
      rfl

end Fetcher

end ImageCache
