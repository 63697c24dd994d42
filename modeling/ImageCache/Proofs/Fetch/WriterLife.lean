import ImageCache.Proofs.Fetch.Course

namespace ImageCache

open Fetcher

variable {W R Wr S I E : Type}

namespace Deed

def opensWriter : Deed R Wr S I → Bool
  | .stage _ (.ok (some _)) => true
  | _ => false

def finishesWriter : Deed R Wr S I → Bool
  | .commit _ _ => true
  | .abort _ _ => true
  | _ => false

def usesWriter : Deed R Wr S I → Bool
  | .offer _ _ _ _ => true
  | .flush _ _ _ => true
  | _ => false

/-- Asks for a writer, uses it or finishes it, or has the store tidy up, which may take it away. -/
def handlesWriter : Deed R Wr S I → Bool
  | .stage _ _ => true
  | .offer _ _ _ _ => true
  | .flush _ _ _ => true
  | .commit _ _ => true
  | .abort _ _ => true
  | .maintain _ => true
  | _ => false

def reportsWriter : Deed R Wr S I → Bool
  | .event _ (.committed _) => true
  | .event _ (.downloadFailed _) => true
  | _ => false

end Deed

/-- Deeds that handle no writer give none any bytes. -/
theorem accepted_unhandled {R Wr : Type} {deeds : List (Deed R Wr S I)}
    (h : ∀ deed ∈ deeds, deed.handlesWriter = false) : Deed.accepted deeds = ByteArray.empty := by
  induction deeds with
  | nil => rfl
  | cons deed rest ih =>
    obtain ⟨hd, hr⟩ := List.forall_mem_cons.mp h
    have ht : deed.taken = ByteArray.empty := by
      cases deed with
      | offer writer bytes reply after => cases hd
      | _ => rfl
    rw [Deed.accepted_cons, ht, ByteArray.empty_append, ih hr]

def Idle (deeds : List (Deed R Wr S I)) : Prop :=
  ∀ deed ∈ deeds, deed.handlesWriter = false ∧ deed.reportsWriter = false

inductive Finishes (last : Wr) : Except Fault Unit → Deed R Wr S I → Prop
  | commit (reply : Except Fault Unit) : Finishes last (.ok ()) (.commit last reply)
  | abort (e : Fault) (reply : Except Fault Unit) : Finishes last (.error e) (.abort last reply)

/-- A writer was asked for, if at all, under the file key of the request, filled by a transfer and
then finished. The observer was told after that, and only of what had come about. -/
inductive WriterLife (r : Request) : List (Deed R Wr S I) → Prop
  | unasked {deeds : List (Deed R Wr S I)} (idle : Idle deeds) : WriterLife r deeds
  | unopened {before after : List (Deed R Wr S I)} {reply : Except Fault (Option Wr)}
      (idle : Idle before) (none : ∀ writer, reply ≠ .ok (some writer)) (quiet : Idle after) :
      WriterLife r (before ++ .stage r.fileKey reply :: after)
  | finished {before during after : List (Deed R Wr S I)} {writer last : Wr} {program : Transfer}
      {talk : Talk} {result : Except Fault Unit} {finish : Deed R Wr S I} (idle : Idle before)
      (plays : program.Plays talk result) (conveys : Conveys writer talk during last)
      (took : Deed.accepted during = talk.accepted) (finishes : Finishes last result finish)
      (quiet : ∀ deed ∈ after, deed.handlesWriter = false)
      (committed : ∀ s n, .event s (.committed n) ∈ after → result = .ok () ∧ n = talk.total ∧
        ((∀ said ∈ talk, said.Honest) → n = (talk.accepted).size))
      (failed : ∀ s m, .event s (.downloadFailed m) ∈ after →
        ∃ e : Fault, result = .error e ∧ m = e.message) :
      WriterLife r (before ++ .stage r.fileKey (.ok (some writer)) ::
        .transfer r.remoteUrl program :: (during ++ finish :: after))

def OpensOnly (r : Request) (deeds : List (Deed R Wr S I)) : Prop :=
  ∀ key reply, .stage key reply ∈ deeds → key = r.fileKey

@[simp]
theorem idle_nil : Idle ([] : List (Deed R Wr S I)) := by simp [Idle]

@[simp]
theorem idle_cons {deed : Deed R Wr S I} {deeds : List (Deed R Wr S I)} :
    Idle (deed :: deeds) ↔
      (deed.handlesWriter = false ∧ deed.reportsWriter = false) ∧ Idle deeds := by
  simp [Idle]

@[simp]
theorem idle_append {first second : List (Deed R Wr S I)} :
    Idle (first ++ second) ↔ Idle first ∧ Idle second :=
  List.forall_mem_append

theorem idle_perusals {deeds : List (Deed R Wr S I)} (h : ∀ deed ∈ deeds, deed.isPerusal) :
    Idle deeds := by
  intro deed hd
  cases deed with
  | peruse entry n reply after => exact ⟨rfl, rfl⟩
  | rewind entry reply after => exact ⟨rfl, rfl⟩
  | _ => cases h _ hd

theorem Scan.idle {r : Request} {tags : List String} {deeds : List (Deed R Wr S I)}
    {outcome : Except (FetchFault E) (Option (R × Provenance))} (h : Scan r tags deeds outcome) :
    Idle deeds := by
  induction h with
  | miss h ih => simp [Deed.handlesWriter, Deed.reportsWriter, ih]
  | _ => simp [Deed.handlesWriter, Deed.reportsWriter]

theorem Look.idle {r : Request} {deeds : List (Deed R Wr S I)}
    {outcome : Except (FetchFault E) (Option (R × Provenance))} (h : Look r deeds outcome) :
    Idle deeds := by
  cases h with
  | scan h => simp [Deed.handlesWriter, Deed.reportsWriter, h.idle]
  | _ => simp [Deed.handlesWriter, Deed.reportsWriter]

theorem Decode.idle {f : Fetcher W R Wr S I E} {entry : R} {s left : Session W}
    {deeds : List (Deed R Wr S I)} {outcome : Except (FetchFault E) (I × DecodePlan)}
    (h : Decode f entry s deeds outcome left) : Idle deeds := by
  cases h with
  | noSize bounds perusals =>
    simp [Deed.handlesWriter, Deed.reportsWriter, idle_perusals perusals]
  | noRewind bounds rewind perusals =>
    simp [Deed.handlesWriter, Deed.reportsWriter, idle_perusals perusals]
  | noImage bounds rewind told image perusals =>
    have hp := idle_append.mp (idle_perusals perusals)
    simp [Deed.handlesWriter, Deed.reportsWriter, hp.1, hp.2]
  | image bounds rewind told decode perusals =>
    have hp := idle_append.mp (idle_perusals perusals)
    simp [Deed.handlesWriter, Deed.reportsWriter, hp.1, hp.2]

/-- Deeds that concern no writer may come before and after. -/
theorem WriterLife.frame {r : Request} {before deeds after : List (Deed R Wr S I)}
    (hb : Idle before) (h : WriterLife r deeds) (ha : Idle after) :
    WriterLife r (before ++ deeds ++ after) := by
  cases h with
  | unasked idle => exact .unasked (by simp [hb, idle, ha])
  | unopened idle none quiet =>
    -- The deeds before join those that were there, around the one that asks for the writer.
    simp only [List.append_assoc, List.cons_append]
    rw [← List.append_assoc before]
    exact .unopened (idle_append.mpr ⟨hb, idle⟩) none (idle_append.mpr ⟨quiet, ha⟩)
  | finished idle plays conveys took finishes quiet committed failed =>
    simp only [List.append_assoc, List.cons_append]
    rw [← List.append_assoc before]
    refine .finished (idle_append.mpr ⟨hb, idle⟩) plays conveys took finishes ?_ ?_ ?_
    · exact List.forall_mem_append.mpr ⟨quiet, fun deed hd => (ha deed hd).1⟩
    · intro s n hm
      rcases List.mem_append.mp hm with hm | hm
      · exact committed s n hm
      · cases (ha _ hm).2
    · intro s m hm
      rcases List.mem_append.mp hm with hm | hm
      · exact failed s m hm
      · cases (ha _ hm).2

/-- After a failed abort there is a notice, and nothing that concerns a writer. -/
theorem abortNotice_idle (reply : Except Fault Unit) :
    Idle (abortNotice reply : List (Deed R Wr S I)) := by
  cases reply with
  | ok _ => simp [abortNotice]
  | error e => simp [abortNotice, Deed.handlesWriter, Deed.reportsWriter]

theorem Ending.finish {r : Request} {talk : Talk} {last : Wr} {result : Except Fault Unit}
    {deeds : List (Deed R Wr S I)} {outcome : Except (FetchFault E) (Option R)}
    (h : Ending r talk last result deeds outcome) :
    ∃ finish after, deeds = finish :: after ∧ Finishes last result finish ∧
      (∀ deed ∈ after, deed.handlesWriter = false) ∧
      (∀ s n, .event s (.committed n) ∈ after → result = .ok () ∧ n = talk.total) ∧
      ∀ s m, .event s (.downloadFailed m) ∈ after →
        ∃ e : Fault, result = .error e ∧ m = e.message := by
  cases h with
  | uncommitted e =>
    exact ⟨_, _, rfl, .commit _, by simp [Deed.handlesWriter], by simp, by simp⟩
  | unread e =>
    exact ⟨_, _, rfl, .commit _, by simp [Deed.handlesWriter], by simp, by simp⟩
  | committed found =>
    exact ⟨_, _, rfl, .commit _, by simp [Deed.handlesWriter], by simp, by simp⟩
  | refused e reply hr =>
    have idle : Idle (abortNotice reply ++ [.notice (.storeFault e)] : List (Deed R Wr S I)) := by
      simp [abortNotice_idle, Deed.handlesWriter, Deed.reportsWriter]
    refine ⟨_, _, rfl, .abort e reply, fun deed hd => (idle deed hd).1, ?_, ?_⟩
    · intro s n hm
      cases (idle _ hm).2
    · intro s m hm
      cases (idle _ hm).2
  | failed e reply hr =>
    have idle : Idle (abortNotice reply : List (Deed R Wr S I)) := abortNotice_idle reply
    refine ⟨_, _, rfl, .abort e reply, ?_, ?_, ?_⟩
    · exact List.forall_mem_append.mpr
        ⟨fun deed hd => (idle deed hd).1, by simp [Deed.handlesWriter]⟩
    · intro s n hm
      rcases List.mem_append.mp hm with hm | hm
      · cases (idle _ hm).2
      · simp at hm
    · intro s m hm
      rcases List.mem_append.mp hm with hm | hm
      · cases (idle _ hm).2
      · simp at hm
        exact ⟨e, rfl, hm.2⟩

theorem Download.life {r : Request} {deeds : List (Deed R Wr S I)}
    {outcome : Except (FetchFault E) (Option R)} (h : Download r deeds outcome) :
    WriterLife r deeds := by
  have opening : Idle ([.event r (.downloading r.remoteUrl)] : List (Deed R Wr S I)) := by
    simp [Deed.handlesWriter, Deed.reportsWriter]
  cases h with
  | unstaged e =>
    exact .unopened opening (by simp) (by simp [Deed.handlesWriter, Deed.reportsWriter])
  | conflict => exact .unopened opening (by simp) (by simp [Deed.handlesWriter, Deed.reportsWriter])
  | sent sending ends =>
    obtain ⟨finish, after, rfl, finishes, quiet, committed, failed⟩ := ends.finish
    cases sending with
    | intro plays conveys =>
      refine .finished opening plays conveys conveys.accepted_eq finishes quiet ?_ failed
      intro s n hm
      obtain ⟨hr, hn⟩ := committed s n hm
      exact ⟨hr, hn, fun honest => by rw [hn, Talk.accepted_size honest]⟩

theorem Locate.life {r : Request} {deeds : List (Deed R Wr S I)}
    {outcome : Except (FetchFault E) (Option (R × Provenance))} (h : Locate r deeds outcome) :
    WriterLife r deeds := by
  cases h with
  | fault look => exact .unasked look.idle
  | found look => exact .unasked look.idle
  | downloaded look download =>
    have h := download.life.frame look.idle idle_nil
    rwa [List.append_nil] at h

theorem Course.life {f : Fetcher W R Wr S I E} {r : Request} {w : W} {deeds : List (Deed R Wr S I)}
    {outcome : FetchResult I E} {left : Session W} (h : Course f r w deeds outcome left) :
    WriterLife r deeds := by
  have start : Idle ([.event r (.started r.fileKey)] : List (Deed R Wr S I)) := by
    simp [Deed.handlesWriter, Deed.reportsWriter]
  cases h with
  | fault locate => simpa using locate.life.frame start idle_nil
  | missing locate =>
    exact locate.life.frame start (by simp [Deed.handlesWriter, Deed.reportsWriter])
  | found locate leads decode => exact locate.life.frame start decode.idle

theorem Conveys.uses {writer last : Wr} {talk : Talk} {deeds : List (Deed R Wr S I)}
    (h : Conveys writer talk deeds last) : ∀ deed ∈ deeds, deed.usesWriter := by
  induction h with
  | nil => simp
  | cons first rest ih =>
    refine List.forall_mem_append.mpr ⟨?_, ih⟩
    cases first with
    | write bytes reply => simp [Deed.usesWriter]
    | flush reply => simp [Deed.usesWriter]
    | horizon n => simp

/-- Deeds that at most use a writer open none and finish none. -/
theorem countP_between {deeds : List (Deed R Wr S I)}
    (h : ∀ deed ∈ deeds, deed.handlesWriter = false ∨ deed.usesWriter = true) :
    deeds.countP Deed.opensWriter = 0 ∧ deeds.countP Deed.finishesWriter = 0 := by
  simp only [List.countP_eq_zero]
  constructor
  · intro deed hd ho
    cases deed with
    | stage key reply => rcases h _ hd with h | h <;> cases h
    | _ => cases ho
  · intro deed hd hf
    cases deed with
    | commit writer reply => rcases h _ hd with h | h <;> cases h
    | abort writer reply => rcases h _ hd with h | h <;> cases h
    | _ => cases hf

theorem Finishes.finishes {last : Wr} {result : Except Fault Unit} {finish : Deed R Wr S I}
    (h : Finishes last result finish) :
    finish.opensWriter = false ∧ finish.finishesWriter = true := by
  cases h with
  | commit reply => exact ⟨rfl, rfl⟩
  | abort e reply => exact ⟨rfl, rfl⟩

/-- Every writer that was opened was finished, and just once. -/
theorem WriterLife.finished_once {r : Request} {deeds : List (Deed R Wr S I)}
    (h : WriterLife r deeds) :
    deeds.countP Deed.finishesWriter = deeds.countP Deed.opensWriter := by
  cases h with
  | unasked idle =>
    obtain ⟨ho, hf⟩ := countP_between fun deed hd => .inl (idle deed hd).1
    rw [ho, hf]
  | @unopened before after reply idle none quiet =>
    obtain ⟨ho, hf⟩ := countP_between fun deed hd => .inl (idle deed hd).1
    obtain ⟨ho', hf'⟩ := countP_between fun deed hd => .inl (quiet deed hd).1
    have hs : (Deed.stage r.fileKey reply : Deed R Wr S I).opensWriter = false := by
      match reply, none with
      | .error e, _ => rfl
      | .ok .none, _ => rfl
      | .ok (some writer), none => exact absurd rfl (none writer)
    simp only [List.countP_append, List.countP_cons, ho, hf, ho', hf', hs]
    rfl
  | finished idle plays conveys took finishes quiet committed failed =>
    obtain ⟨ho, hf⟩ := countP_between fun deed hd => .inl (idle deed hd).1
    obtain ⟨ho', hf'⟩ := countP_between fun deed hd => .inr (conveys.uses deed hd)
    obtain ⟨ho'', hf''⟩ := countP_between fun deed hd => .inl (quiet deed hd)
    obtain ⟨hn, hy⟩ := finishes.finishes
    simp only [List.countP_append, List.countP_cons, ho, hf, ho', hf', ho'', hf'', hn, hy]
    rfl

theorem WriterLife.opens_only {r : Request} {deeds : List (Deed R Wr S I)}
    (h : WriterLife r deeds) : OpensOnly r deeds := by
  intro key reply hm
  cases h with
  | unasked idle => cases (idle _ hm).1
  | unopened idle none quiet =>
    rcases List.mem_append.mp hm with hm | hm
    · cases (idle _ hm).1
    · rcases List.mem_cons.mp hm with hm | hm
      · exact (Deed.stage.inj hm).1
      · cases (quiet _ hm).1
  | finished idle plays conveys took finishes quiet committed failed =>
    rcases List.mem_append.mp hm with hm | hm
    · cases (idle _ hm).1
    · simp only [List.mem_cons, List.mem_append] at hm
      rcases hm with hm | hm | hm | hm | hm
      · exact (Deed.stage.inj hm).1
      · cases hm
      · cases conveys.uses _ hm
      · cases hm
        cases finishes
      · cases quiet _ hm

/-- Whatever store and source do, a fetch asks for a writer at most once, under its file key; it
lets the source fill the writer it got, commits it if the transfer succeeded and aborts it else, and
is done with it then. The source was told of just the bytes that the writer took, and the observer
of their number. -/
theorem fetch_finishes_writer (f : Fetcher W R Wr S I E) (r : Request) (w : W) :
    WriterLife r (f.trace r w) ∧ OpensOnly r (f.trace r w) ∧
      (f.trace r w).countP Deed.finishesWriter = (f.trace r w).countP Deed.opensWriter := by
  obtain ⟨outcome, left, -, -, -, course⟩ := f.fetch_course r w
  exact ⟨course.life, course.life.opens_only, course.life.finished_once⟩

end ImageCache
