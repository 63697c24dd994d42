import ImageCache.Proofs.Fetch.Conduct
import ImageCache.Rehearsal.MapFetcher

namespace ImageCache

open Fetcher

variable {W R Wr S I E : Type}

/-- Who broke a transfer off. -/
inductive Breach where
  | sink (fault : Fault)
  | source (fault : Fault)

def Breach.fault : Breach → Fault
  | sink fault => fault
  | source fault => fault

/-- What a source sends: pieces, each written to the end, and what comes of it after the last. -/
structure Feed where
  pieces : List ByteArray
  ending : Except Fault Unit

namespace Feed

/-- Writes the pieces up to the first that the sink does not take. -/
def playFrom (ending : Except Fault Unit) : List ByteArray → Writing (Except Breach Unit)
  | [] => pure (ending.mapError .source)
  | piece :: rest => do
    match ← Writing.writeAll piece with
    | .ok () => playFrom ending rest
    | .error e => pure (.error (.sink e))

def play (feed : Feed) : Writing (Except Breach Unit) := playFrom feed.ending feed.pieces

def transfer (feed : Feed) : Transfer := do return (← feed.play).mapError Breach.fault

end Feed

namespace Talk

@[simp]
theorem faults_append (first second : Talk) :
    faults (first ++ second) = first.faults ++ second.faults :=
  List.filterMap_append

def Interrupted (talk : Talk) : Prop := ∀ e ∈ talk.faults, e.isInterruption = true

/-- Some call failed with this fault, or it says that bytes were refused without a failed call. -/
def Accounts (talk : Talk) (e : Fault) : Prop := e ∈ talk.faults ∨ e = .refusedBytes

def Explains (talk : Talk) : Except Fault Unit → Prop
  | .ok () => talk.Interrupted
  | .error e => talk.Accounts e

theorem Explains.taken {talk : Talk} {result : Except Fault Unit} (bytes : ByteArray) (n : Nat)
    (h : talk.Explains result) : Explains (⟨.write bytes, .ok n⟩ :: talk) result := by
  cases result with
  | ok _ => exact h
  | error e => exact h

theorem Explains.interrupted {talk : Talk} {result : Except Fault Unit} (bytes : ByteArray)
    {fault : Fault} (hi : fault.isInterruption = true) (h : talk.Explains result) :
    Explains (⟨.write bytes, .error fault⟩ :: talk) result := by
  cases result with
  | ok _ => exact List.forall_mem_cons.mpr ⟨hi, h⟩
  | error e => exact Or.imp_left (List.mem_cons_of_mem fault) h

/-- A breach by the sink shows in the calls to it, unless it just took nothing. A breach by the
source comes after interruptions at most. -/
def Bears (talk : Talk) : Breach → Prop
  | .sink e => talk.Accounts e
  | .source _ => talk.Interrupted

theorem Bears.after {first second : Talk} {breach : Breach} (hf : first.Interrupted)
    (h : second.Bears breach) : Bears (first ++ second) breach := by
  cases breach with
  | sink e =>
    apply Or.imp_left _ h
    intro hm
    simp [hm]
  | source _ =>
    intro e hm
    rw [faults_append] at hm
    rcases List.mem_append.mp hm with hm | hm
    · exact hf e hm
    · exact h e hm

end Talk

namespace Writing

/-- To write all is cut short by a fault of the sink or by an offer of which nothing is taken. All
other faults on the way are interruptions. -/
theorem pour_explained {fuel : Nat} {bytes : ByteArray} {talk : Talk} {result : Except Fault Unit}
    (h : Dialogue.Plays (pour fuel bytes) talk result) : talk.Explains result := by
  induction fuel generalizing bytes talk with
  | zero =>
    cases h with
    | done => exact .inr rfl
  | succ fuel ih =>
    rw [pour] at h
    by_cases hz : bytes.size = 0
    · rw [if_pos hz] at h
      cases h with
      | done => simp [Talk.Explains, Talk.Interrupted, Talk.faults]
    · rw [if_neg hz] at h
      cases h with
      | @ask _ _ reply talk _ rest =>
        cases reply with
        | ok n =>
          change (if n = 0 then _ else _ : Transfer).Plays talk result at rest
          by_cases hn : n = 0
          · rw [if_pos hn] at rest
            cases rest with
            | done => exact .inr rfl
          · rw [if_neg hn] at rest
            exact (ih rest).taken bytes n
        | error fault =>
          change (if fault.isInterruption then _ else _ : Transfer).Plays talk result at rest
          by_cases hi : fault.isInterruption = true
          · rw [if_pos hi] at rest
            exact (ih rest).interrupted bytes hi
          · rw [if_neg hi] at rest
            cases rest with
            | done => exact .inl List.mem_cons_self

theorem writeAll_explained {bytes : ByteArray} {talk : Talk} {result : Except Fault Unit}
    (h : Dialogue.Plays (writeAll bytes) talk result) : talk.Explains result := by
  cases h with
  | @ask _ _ n talk _ rest =>
    -- That the horizon was asked for is no fault.
    have explained : Talk.Explains talk result := pour_explained rest
    cases result with
    | ok _ => exact explained
    | error e => exact explained

end Writing

namespace Feed

theorem playFrom_bears {ending : Except Fault Unit} {pieces : List ByteArray} {talk : Talk}
    {breach : Breach} (h : Dialogue.Plays (playFrom ending pieces) talk (.error breach)) :
    talk.Bears breach := by
  induction pieces generalizing talk with
  | nil =>
    rw [playFrom] at h
    generalize hr : (Except.error breach : Except Breach Unit) = result at h
    cases h with
    | done =>
      cases ending with
      | ok _ => cases hr
      | error e =>
        cases hr
        simp [Talk.Bears, Talk.Interrupted, Talk.faults]
  | cons piece rest ih =>
    obtain ⟨first, second, result, rfl, hp, hf⟩ := Dialogue.plays_bind h
    have explained := Writing.writeAll_explained hp
    cases result with
    | ok _ => exact (ih hf).after explained
    | error e =>
      cases hf with
      | done =>
        rw [List.append_nil]
        exact explained

/-- What a source breaks off with is what it was to end with. -/
theorem playFrom_source {ending : Except Fault Unit} {pieces : List ByteArray} {talk : Talk}
    {e : Fault} (h : Dialogue.Plays (playFrom ending pieces) talk (.error (.source e))) :
    ending = .error e := by
  induction pieces generalizing talk with
  | nil =>
    rw [playFrom] at h
    generalize hr : (Except.error (.source e) : Except Breach Unit) = result at h
    cases h with
    | done =>
      cases ending with
      | ok _ => cases hr
      | error _ =>
        cases hr
        rfl
  | cons piece rest ih =>
    obtain ⟨first, second, result, rfl, -, hf⟩ := Dialogue.plays_bind h
    cases result with
    | ok _ => exact ih hf
    | error _ => cases hf

variable {σ : Type}

theorem run_transfer (k : Sink σ) (feed : Feed) (s : σ) :
    k.run feed.transfer s =
      ((k.run feed.play s).1.mapError Breach.fault, (k.run feed.play s).2) := by
  rw [transfer, Sink.run, Dialogue.run_bind]
  rfl

theorem talk_transfer (k : Sink σ) (feed : Feed) (s : σ) :
    k.talk feed.transfer s = k.talk feed.play s := by
  rw [transfer, Sink.talk, Dialogue.talk_bind]
  exact List.append_nil _

end Feed

/-- The calls to the writer tell the wrong story: the sink broke off without a failed call, or the
source did after calls that had just been interrupted. -/
def Breach.Blurred (faults : List Fault) : Breach → Prop
  | .sink e => e = .refusedBytes ∧ faults = []
  | .source _ => ∃ e ∈ faults, e.isInterruption = true

namespace Fetcher

variable {f : Fetcher W R Wr S I E} {r : Request} {w start : W} {feed : Feed} {writer : Wr}
  {breach : Breach}

/-- The store is at fault if the sink broke off. If the source did, there is just no image, and the
observer is told why. -/
def TellsApart (f : Fetcher W R Wr S I E) (r : Request) (w : W) : Breach → Prop
  | .sink e => (f.fetch r w).1.1 = .error (.store e) ∧
      ∀ s m, .event s (.downloadFailed m) ∉ f.trace r w
  | .source e => (f.fetch r w).1.1 = .ok none ∧ .event r (.downloadFailed e.message) ∈ f.trace r w

theorem Sends.bears (sends : f.Sends r w feed.transfer writer start)
    (broke : (f.store.writer.run feed.play (writer, start)).1 = .error breach) :
    ∃ talk : Talk, writeFaults (f.trace r w) = talk.faults ∧ talk.Bears breach := by
  obtain ⟨_, _, _, _, -, faults, -, -⟩ := sends.concluded
  rw [feed.talk_transfer] at faults
  refine ⟨_, faults, ?_⟩
  apply Feed.playFrom_bears
  rw [← broke]
  exact feed.play.plays_talk f.store.writer.answer (writer, start)

theorem Sends.broke_off (sends : f.Sends r w feed.transfer writer start)
    (broke : (f.store.writer.run feed.play (writer, start)).1 = .error breach) :
    if writeFaults (f.trace r w) = [] then (f.fetch r w).1.1 = .ok none ∧
      .event r (.downloadFailed breach.fault.message) ∈ f.trace r w
    else (f.fetch r w).1.1 = .error (.store breach.fault) ∧
      ∀ s m, .event s (.downloadFailed m) ∉ f.trace r w := by
  refine (sends.aborted ?_).2.2
  rw [feed.run_transfer, broke]
  rfl

/-- A fetch from a source that writes all of its pieces finds out who broke off, unless the calls to
the writer tell another story. -/
theorem told_apart_iff (f : Fetcher W R Wr S I E) (r : Request) (w : W) (feed : Feed) (writer : Wr)
    (start : W) (sends : f.Sends r w feed.transfer writer start) (breach : Breach)
    (broke : (f.store.writer.run feed.play (writer, start)).1 = .error breach) :
    f.TellsApart r w breach ↔ ¬ breach.Blurred (writeFaults (f.trace r w)) := by
  have concluded := sends.broke_off broke
  obtain ⟨talk, faults, bears⟩ := sends.bears broke
  rw [faults] at concluded ⊢
  by_cases hf : talk.faults = []
  · rw [if_pos hf] at concluded
    obtain ⟨result, told⟩ := concluded
    cases breach with
    | sink e =>
      have silent : e = .refusedBytes := by
        rcases bears with hm | rfl
        · simp [hf] at hm
        · rfl
      simp [TellsApart, Breach.Blurred, result, silent, hf]
    | source e =>
      refine ⟨fun _ => ?_, fun _ => ⟨result, told⟩⟩
      simp [Breach.Blurred, hf]
  · rw [if_neg hf] at concluded
    obtain ⟨result, untold⟩ := concluded
    cases breach with
    | sink e =>
      refine ⟨fun _ => ?_, fun _ => ⟨result, untold⟩⟩
      simp [Breach.Blurred, hf]
    | source e =>
      obtain ⟨fault, hm⟩ := List.exists_mem_of_ne_nil _ hf
      have interrupted : ∃ e ∈ talk.faults, e.isInterruption = true := ⟨fault, hm, bears fault hm⟩
      simp [TellsApart, Breach.Blurred, result, interrupted]

end Fetcher

namespace Rehearsal

def feeding (feed : Feed) : Fetcher (World MapStore Tile) MapEntry MapWriter Stream Tile Fault :=
  { mapFetcher with source := { World.source with transfer := fun _ => pure feed.transfer } }

/-- A transfer of the feed that was not committed broke off. -/
theorem feeding_broke (feed : Feed) (w : World MapStore Tile)
    (opened : ((feeding feed).trace thumbnail w).any Deed.opensWriter = true)
    (uncommitted : ¬ ((feeding feed).trace thumbnail w).any Deed.commits = true) :
    ∃ writer start breach, (feeding feed).Sends thumbnail w feed.transfer writer start ∧
      ((feeding feed).store.writer.run feed.play (writer, start)).1 = .error breach := by
  obtain ⟨program, writer, start, sends⟩ := sends_of_opened opened
  obtain ⟨before, after, -, leads⟩ := id sends
  obtain ⟨w₁, -, w₂, -, w₃, asked, -⟩ := leads_append.mp leads
  obtain rfl : feed.transfer = program := (Prod.mk.inj asked).1
  have untouched : ∀ writer reply, .commit writer reply ∉ (feeding feed).trace thumbnail w :=
    fun last reply hc => uncommitted (any_commits_iff.mpr ⟨last, reply, hc⟩)
  obtain ⟨e, he⟩ := sends.error_of_uncommitted untouched
  rw [feed.run_transfer] at he
  cases broke : ((feeding feed).store.writer.run feed.play (writer, start)).1 with
  | ok _ =>
    rw [broke] at he
    cases he
  | error breach => exact ⟨writer, start, breach, sends, broke⟩

def connectionLost : Fault := .reported .timedOut "connection lost"

def wholeTile : Feed := ⟨[smallTile], .ok ()⟩

def lostAfter : Feed := ⟨[smallTile], .error connectionLost⟩

def fullStore : World MapStore Tile := troubled { StoreFaults.none with room := some 12 } []

theorem full_store_told_apart :
    ∃ writer start breach,
      (feeding lostAfter).Sends thumbnail fullStore lostAfter.transfer writer start ∧
      ((feeding lostAfter).store.writer.run lostAfter.play (writer, start)).1 = .error breach ∧
      (feeding lostAfter).TellsApart thumbnail fullStore breach := by
  obtain ⟨writer, start, breach, sends, broke⟩ :=
    feeding_broke lostAfter fullStore (by decide +kernel) (by decide +kernel)
  have faults : writeFaults ((feeding lostAfter).trace thumbnail fullStore) =
      [.reported .storageFull "disk full"] := by
    decide +kernel
  refine ⟨writer, start, breach, sends, broke, ?_⟩
  apply (told_apart_iff _ _ _ _ _ _ sends breach broke).mpr
  rw [faults]
  cases breach with
  | sink e => simp [Breach.Blurred]
  | source e => simp [Breach.Blurred, Fault.isInterruption, Fault.kind]

def interruptedStore : World MapStore Tile :=
  troubled { StoreFaults.none with interruptions := 1 } []

def deafStore : World MapStore Tile := troubled { StoreFaults.none with writeCap := some 0 } []

def storeFault? : FetchResult Tile Fault → Option Fault
  | .error (.store e) => some e
  | _ => none

theorem lost_blamed_on_store :
    ∃ writer start,
      (feeding lostAfter).Sends thumbnail interruptedStore lostAfter.transfer writer start ∧
      ((feeding lostAfter).store.writer.run lostAfter.play (writer, start)).1 =
        .error (.source connectionLost) ∧
      ((feeding lostAfter).fetch thumbnail interruptedStore).1.1 =
        .error (.store connectionLost) := by
  obtain ⟨writer, start, breach, sends, broke⟩ :=
    feeding_broke lostAfter interruptedStore (by decide +kernel) (by decide +kernel)
  have faults : writeFaults ((feeding lostAfter).trace thumbnail interruptedStore) =
      [.reported .interrupted "interrupted"] := by
    decide +kernel
  have blamed :
      storeFault? ((feeding lostAfter).fetch thumbnail interruptedStore).1.1 =
        some connectionLost := by
    decide +kernel
  have concluded := sends.broke_off broke
  rw [faults, if_neg (List.cons_ne_nil _ _)] at concluded
  obtain ⟨result, -⟩ := concluded
  rw [result] at blamed
  have same : breach.fault = connectionLost := Option.some.inj blamed
  obtain ⟨talk, heard, bears⟩ := sends.bears broke
  rw [faults] at heard
  cases breach with
  | sink e =>
    obtain rfl : e = connectionLost := same
    rcases bears with hm | he
    · simp [← heard, connectionLost] at hm
    · cases he
  | source e =>
    obtain rfl : e = connectionLost := same
    exact ⟨writer, start, sends, broke, result⟩

theorem refusal_blamed_on_source :
    ∃ writer start,
      (feeding wholeTile).Sends thumbnail deafStore wholeTile.transfer writer start ∧
      ((feeding wholeTile).store.writer.run wholeTile.play (writer, start)).1 =
        .error (.sink .refusedBytes) ∧
      ((feeding wholeTile).fetch thumbnail deafStore).1.1 = .ok none := by
  obtain ⟨writer, start, breach, sends, broke⟩ :=
    feeding_broke wholeTile deafStore (by decide +kernel) (by decide +kernel)
  have faults : writeFaults ((feeding wholeTile).trace thumbnail deafStore) = [] := by
    decide +kernel
  have concluded := sends.broke_off broke
  rw [if_pos faults] at concluded
  obtain ⟨talk, heard, bears⟩ := sends.bears broke
  rw [faults] at heard
  cases breach with
  | sink e =>
    rcases bears with hm | rfl
    · simp [← heard] at hm
    · exact ⟨writer, start, sends, broke, concluded.1⟩
  | source e =>
    have played := Dialogue.plays_talk (feeding wholeTile).store.writer.answer wholeTile.play
      (writer, start)
    rw [← Sink.run, broke] at played
    cases Feed.playFrom_source played

/-- A lost connection is blamed on a store whose writer had only been interrupted, and a writer that
takes nothing is blamed on the source. -/
theorem breaches_confused :
    (∃ writer start,
      (feeding lostAfter).Sends thumbnail interruptedStore lostAfter.transfer writer start ∧
      ((feeding lostAfter).store.writer.run lostAfter.play (writer, start)).1 =
        .error (.source connectionLost) ∧
      ¬ (feeding lostAfter).TellsApart thumbnail interruptedStore (.source connectionLost)) ∧
    ∃ writer start,
      (feeding wholeTile).Sends thumbnail deafStore wholeTile.transfer writer start ∧
      ((feeding wholeTile).store.writer.run wholeTile.play (writer, start)).1 =
        .error (.sink .refusedBytes) ∧
      ¬ (feeding wholeTile).TellsApart thumbnail deafStore (.sink .refusedBytes) := by
  obtain ⟨writer, start, sends, broke, result⟩ := lost_blamed_on_store
  obtain ⟨writer', start', sends', broke', result'⟩ := refusal_blamed_on_source
  refine ⟨⟨writer, start, sends, broke, ?_⟩, writer', start', sends', broke', ?_⟩
  · simp [TellsApart, result]
  · simp [TellsApart, result']

end Rehearsal

end ImageCache
