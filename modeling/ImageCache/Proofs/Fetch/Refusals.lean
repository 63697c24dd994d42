import ImageCache.Proofs.Fetch.Conduct
import ImageCache.Rehearsal.MapFetcher

namespace ImageCache

open Fetcher

variable {W R Wr S I E : Type}

/-- Nothing is committed, the writer that was left is aborted, and the store is at fault. -/
def Fetcher.Withholds (f : Fetcher W R Wr S I E) (r : Request) (w : W) (last : Wr) : Prop :=
  (∀ writer reply, .commit writer reply ∉ f.trace r w) ∧
    (∃ reply, .abort last reply ∈ f.trace r w) ∧ ∃ e, (f.fetch r w).1.1 = .error (.store e)

/-- Where the writer refused to write or to flush, and was not just interrupted, the entry is
withheld if the program of the source ended with a fault, and only then. -/
theorem refused_withheld_iff (f : Fetcher W R Wr S I E) (r : Request) (w : W) (program : Transfer)
    (writer : Wr) (start : W) (sends : f.Sends r w program writer start)
    (refused : ∃ e ∈ writeFaults (f.trace r w), e.isInterruption = false) :
    f.Withholds r w (f.store.writer.run program (writer, start)).2.1 ↔
      ∃ e, (f.store.writer.run program (writer, start)).1 = .error e := by
  constructor
  · rintro ⟨uncommitted, -, -⟩
    exact sends.error_of_uncommitted uncommitted
  · rintro ⟨e, hr⟩
    obtain ⟨uncommitted, aborted, concluded⟩ := sends.aborted hr
    obtain ⟨fault, hf, -⟩ := refused
    rw [if_neg (List.ne_nil_of_mem hf)] at concluded
    exact ⟨uncommitted, aborted, e, concluded.1⟩

namespace Rehearsal

/-- A store that takes the first twelve bytes of an entry and then is full. The tile has two more,
and the source may let it pass that they are refused. -/
def shortStore (ignoring : Bool) : World MapStore Tile :=
  troubled { StoreFaults.none with room := some 12 } [(.writeAll smallTile, ignoring)]

theorem shortStore_refuses (ignoring : Bool) :
    ∃ e ∈ writeFaults (mapFetcher.trace thumbnail (shortStore ignoring)),
      e.isInterruption = false := by
  cases ignoring with
  | false => decide +kernel
  | true => decide +kernel

theorem full_store_withholds :
    ∃ program writer start, mapFetcher.Sends thumbnail (shortStore false) program writer start ∧
      (∃ e ∈ writeFaults (mapFetcher.trace thumbnail (shortStore false)),
        e.isInterruption = false) ∧
      mapFetcher.Withholds thumbnail (shortStore false)
        (mapFetcher.store.writer.run program (writer, start)).2.1 := by
  have opened : (mapFetcher.trace thumbnail (shortStore false)).any Deed.opensWriter = true := by
    decide +kernel
  have uncommitted : ¬ (mapFetcher.trace thumbnail (shortStore false)).any Deed.commits = true := by
    decide +kernel
  obtain ⟨program, writer, start, sends⟩ := sends_of_opened opened
  refine ⟨program, writer, start, sends, shortStore_refuses false, ?_⟩
  apply (refused_withheld_iff _ _ _ _ _ _ sends (shortStore_refuses false)).mpr
  apply sends.error_of_uncommitted
  intro last reply hc
  exact uncommitted (any_commits_iff.mpr ⟨last, reply, hc⟩)

/-- If the source lets it pass, the first twelve bytes are committed as if they were the tile. -/
theorem full_store_truncates :
    (∃ e ∈ writeFaults (mapFetcher.trace thumbnail (shortStore true)),
        e.isInterruption = false) ∧
      (∃ writer reply, .commit writer reply ∈ mapFetcher.trace thumbnail (shortStore true)) ∧
      ∀ last, ¬ mapFetcher.Withholds thumbnail (shortStore true) last := by
  have committed : ∃ writer reply,
      .commit writer reply ∈ mapFetcher.trace thumbnail (shortStore true) := by
    apply any_commits_iff.mp
    decide +kernel
  refine ⟨shortStore_refuses true, committed, ?_⟩
  intro last withheld
  obtain ⟨writer, reply, hc⟩ := committed
  exact withheld.1 writer reply hc

end Rehearsal

end ImageCache
