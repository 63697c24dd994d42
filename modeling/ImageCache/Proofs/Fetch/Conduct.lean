import ImageCache.Proofs.Fetch.WriterLife

namespace ImageCache

open Fetcher

variable {W R Wr S I E α β : Type}

def Exchange.fault? : Exchange → Option Fault
  | ⟨.write _, .error e⟩ => some e
  | ⟨.flush, .error e⟩ => some e
  | _ => none

def Talk.faults (talk : Talk) : List Fault := talk.filterMap Exchange.fault?

def Deed.writeFault? : Deed R Wr S I → Option Fault
  | .offer _ _ (.error e) _ => some e
  | .flush _ (.error e) _ => some e
  | _ => none

def Deed.commits : Deed R Wr S I → Bool
  | .commit _ _ => true
  | _ => false

theorem any_commits_iff {deeds : List (Deed R Wr S I)} :
    deeds.any Deed.commits = true ↔ ∃ writer reply, .commit writer reply ∈ deeds := by
  rw [List.any_eq_true]
  constructor
  · rintro ⟨deed, hd, hc⟩
    cases deed with
    | commit writer reply => exact ⟨writer, reply, hd⟩
    | _ => cases hc
  · rintro ⟨writer, reply, hd⟩
    exact ⟨_, hd, rfl⟩

def writeFaults (deeds : List (Deed R Wr S I)) : List Fault := deeds.filterMap Deed.writeFault?

theorem writeFaults_append (first second : List (Deed R Wr S I)) :
    writeFaults (first ++ second) = writeFaults first ++ writeFaults second :=
  List.filterMap_append

theorem writeFaults_unhandled {deeds : List (Deed R Wr S I)}
    (h : ∀ deed ∈ deeds, deed.handlesWriter = false) : writeFaults deeds = [] := by
  apply List.filterMap_eq_nil_iff.mpr
  intro deed hd
  cases deed with
  | offer writer bytes reply after => cases h _ hd
  | flush writer reply after => cases h _ hd
  | _ => rfl

theorem Talk.refused_iff (talk : Talk) : talk.refused = true ↔ talk.faults ≠ [] := by
  induction talk with
  | nil => simp [refused, faults]
  | cons said rest ih =>
    rw [refused, List.any_cons, ← refused, Bool.or_eq_true, ih]
    obtain ⟨query, reply⟩ := said
    cases query with
    | write bytes =>
      cases reply with
      | _ => simp [Exchange.fails, faults, Exchange.fault?]
    | flush =>
      cases reply with
      | _ => simp [Exchange.fails, faults, Exchange.fault?]
    | horizon => simp [Exchange.fails, faults, Exchange.fault?]

/-- The source is told of every fault of the writer. -/
theorem Conveys.faults_eq {writer last : Wr} {talk : Talk} {deeds : List (Deed R Wr S I)}
    (h : Conveys writer talk deeds last) : writeFaults deeds = talk.faults := by
  induction h with
  | nil => rfl
  | @cons _ _ _ said _ _ _ first rest ih =>
    rw [writeFaults_append, ih]
    cases first with
    | write bytes reply => cases reply <;> rfl
    | flush reply => cases reply <;> rfl
    | horizon n => rfl

/-- How a fetch ends after its transfer. The entry is committed, come what may, or it is aborted, as
the store's fault if a call to the writer had failed, and else as the source's. -/
inductive Concludes (r : Request) (last : Wr) (refused : Bool) :
    Except Fault Unit → List (Deed R Wr S I) → Except (FetchFault E) (Option α) → Prop
  | committed (reply : Except Fault Unit) {after : List (Deed R Wr S I)}
      {outcome : Except (FetchFault E) (Option α)}
      (quiet : ∀ deed ∈ after, deed.handlesWriter = false) :
      Concludes r last refused (.ok ()) (.commit last reply :: after) outcome
  | withdrawn (e : Fault) (reply : Except Fault Unit) {after : List (Deed R Wr S I)}
      (h : refused = true) (idle : Idle after) :
      Concludes r last refused (.error e) (.abort last reply :: after) (.error (.store e))
  | failed (e : Fault) (reply : Except Fault Unit) {after : List (Deed R Wr S I)}
      (h : refused = false) (quiet : ∀ deed ∈ after, deed.handlesWriter = false)
      (told : .event r (.downloadFailed e.message) ∈ after) :
      Concludes r last refused (.error e) (.abort last reply :: after) (.ok none)

/-- Deeds behind that concern no writer change nothing. -/
theorem Concludes.frame {r : Request} {last : Wr} {refused : Bool} {result : Except Fault Unit}
    {deeds more : List (Deed R Wr S I)} {outcome : Except (FetchFault E) (Option α)}
    {next : Except (FetchFault E) (Option β)} (h : Concludes r last refused result deeds outcome)
    (idle : Idle more) (error : ∀ e, outcome = .error e → next = .error e)
    (none : outcome = .ok none → next = .ok none) :
    Concludes r last refused result (deeds ++ more) next := by
  have quiet : ∀ deed ∈ more, deed.handlesWriter = false := fun deed hd => (idle deed hd).1
  cases h with
  | committed reply hq => exact .committed reply (List.forall_mem_append.mpr ⟨hq, quiet⟩)
  | withdrawn e reply hr hi =>
    rw [error _ rfl]
    exact .withdrawn e reply hr (idle_append.mpr ⟨hi, idle⟩)
  | failed e reply hr hq told =>
    rw [none rfl]
    exact .failed e reply hr (List.forall_mem_append.mpr ⟨hq, quiet⟩)
      (List.mem_append_left _ told)

/-- A fetch that began in the world `w` let no source write, or it ran a program of the source on
the writer, from the world in which that was given, and concluded accordingly. -/
inductive Conducted (f : Fetcher W R Wr S I E) (r : Request) (w : W) :
    List (Deed R Wr S I) → Except (FetchFault E) (Option α) → Prop
  | unsent {deeds : List (Deed R Wr S I)} {outcome : Except (FetchFault E) (Option α)}
      (unopened : ∀ deed ∈ deeds, deed.opensWriter = false) : Conducted f r w deeds outcome
  | sent {before during ending : List (Deed R Wr S I)} {program : Transfer} {writer last : Wr}
      {start w' : W} {result : Except Fault Unit} {outcome : Except (FetchFault E) (Option α)}
      (idle : Idle before)
      (leads : f.Leads w (before ++ [.stage r.fileKey (.ok (some writer)),
        .transfer r.remoteUrl program]) start)
      (run : f.store.writer.run program (writer, start) = (result, (last, w')))
      (conveys : Conveys writer (f.store.writer.talk program (writer, start)) during last)
      (ends : Concludes r last (f.store.writer.talk program (writer, start)).refused result ending
        outcome) :
      Conducted f r w (before ++ .stage r.fileKey (.ok (some writer)) ::
        .transfer r.remoteUrl program :: (during ++ ending)) outcome

theorem unopened_unhandled {deeds : List (Deed R Wr S I)}
    (h : ∀ deed ∈ deeds, deed.handlesWriter = false) :
    ∀ deed ∈ deeds, deed.opensWriter = false := by
  intro deed hd
  cases deed with
  | stage key reply => cases h _ hd
  | _ => rfl

theorem unopened_idle {deeds : List (Deed R Wr S I)} (h : Idle deeds) :
    ∀ deed ∈ deeds, deed.opensWriter = false :=
  unopened_unhandled fun deed hd => (h deed hd).1

theorem Conducted.frame {f : Fetcher W R Wr S I E} {r : Request} {w w₁ : W}
    {before deeds more : List (Deed R Wr S I)} {outcome : Except (FetchFault E) (Option α)}
    {next : Except (FetchFault E) (Option β)} (leads : f.Leads w before w₁) (hb : Idle before)
    (h : Conducted f r w₁ deeds outcome) (idle : Idle more)
    (error : ∀ e, outcome = .error e → next = .error e)
    (none : outcome = .ok none → next = .ok none) :
    Conducted f r w (before ++ deeds ++ more) next := by
  cases h with
  | unsent unopened =>
    apply Conducted.unsent
    exact List.forall_mem_append.mpr
      ⟨List.forall_mem_append.mpr ⟨unopened_idle hb, unopened⟩, unopened_idle idle⟩
  | sent hi hl run conveys ends =>
    simp only [List.append_assoc, List.cons_append]
    rw [← List.append_assoc before]
    refine .sent (idle_append.mpr ⟨hb, hi⟩) ?_ run conveys (ends.frame idle error none)
    rw [List.append_assoc]
    exact leads_append.mpr ⟨w₁, leads, hl⟩

/-- Where there is an entry, the transfer does not decide how the fetch goes on. -/
theorem Conducted.found {f : Fetcher W R Wr S I E} {r : Request} {w w₁ : W}
    {before deeds more : List (Deed R Wr S I)} {place : α}
    {next : Except (FetchFault E) (Option β)} (leads : f.Leads w before w₁) (hb : Idle before)
    (h : Conducted f r w₁ deeds (.ok (some place) : Except (FetchFault E) (Option α)))
    (idle : Idle more) : Conducted f r w (before ++ deeds ++ more) next := by
  refine h.frame leads hb idle ?_ ?_
  · intro e he
    cases he
  · intro hn
    cases hn

namespace Fetcher

section

variable {f : Fetcher W R Wr S I E} {r : Request} {w : W} {record : List (Deed R Wr S I)}

theorem download_conducted :
    Goes f ⟨r, w⟩ record f.download f.recorded.download fun done outcome left =>
      Conducted f r w done outcome ∧ ∃ w', left = ⟨r, w'⟩ := by
  refine Goes.get_bind (Goes.call_bind (fun _ => .event r (.downloading r.remoteUrl)) rfl ?_)
  intro _ w₁ told
  refine fromStore_bind (.stage r.fileKey) rfl ?_ ?_
  · intro staged w₂ stages
    cases staged with
    | none =>
      refine emit_bind .writerConflict fun w' => Goes.pure ⟨.unsent ?_, w', rfl⟩
      simp [Deed.opensWriter]
    | some writer =>
      refine send_bind ?_
      intro program start during result last w₃ starts run conveys
      have leads : f.Leads w ([.event r (.downloading r.remoteUrl)] ++
          [.stage r.fileKey (.ok (some writer)), .transfer r.remoteUrl program]) start :=
        ⟨w₁, told, w₂, stages, start, starts, rfl⟩
      have idle : Idle ([.event r (.downloading r.remoteUrl)] : List (Deed R Wr S I)) := by
        simp [Deed.handlesWriter, Deed.reportsWriter]
      cases result with
      | ok _ =>
        refine fromStore_bind (.commit last) rfl ?_ fun e w' =>
          ⟨.sent idle leads run conveys (.committed _ (by simp [Deed.handlesWriter])), w', rfl⟩
        intro _ w₄ _
        refine emit_bind (.committed _) fun w₅ => ?_
        exact fromStore_goes (.read r.fileKey) rfl
          (fun found w' =>
            ⟨.sent idle leads run conveys (.committed _ (by simp [Deed.handlesWriter])), w', rfl⟩)
          fun e w' =>
            ⟨.sent idle leads run conveys (.committed _ (by simp [Deed.handlesWriter])), w', rfl⟩
      | error e =>
        refine abandon_bind ?_
        intro reply w₄ past
        have quiet : Idle (abortNotice reply : List (Deed R Wr S I)) := abortNotice_idle reply
        cases hf : Talk.refused (f.store.writer.talk program (writer, start)) with
        | true =>
          refine failStore_goes e fun w' =>
            ⟨.sent idle leads run conveys (.withdrawn e reply hf ?_), w', rfl⟩
          simp [quiet, Deed.handlesWriter, Deed.reportsWriter]
        | false =>
          refine emit_bind (.downloadFailed e.message) fun w' => Goes.pure
            ⟨.sent idle leads run conveys (.failed e reply hf ?_ (by simp)), w', rfl⟩
          exact List.forall_mem_append.mpr
            ⟨fun deed hd => (quiet deed hd).1, by simp [Deed.handlesWriter]⟩
  · intro e w'
    refine ⟨.unsent ?_, w', rfl⟩
    simp [Deed.opensWriter]

theorem locate_conducted :
    Goes f ⟨r, w⟩ record f.locate f.recorded.locate fun done outcome left =>
      Conducted f r w done outcome ∧ ∃ w', left = ⟨r, w'⟩ := by
  refine Goes.bind readCached_goes ?_ ?_
  · rintro deeds found _ leads ⟨look, w', rfl⟩
    cases found with
    | some place =>
      refine Goes.pure ⟨.unsent ?_, w', rfl⟩
      rw [List.append_nil]
      exact unopened_idle look.idle
    | none =>
      refine Goes.bind download_conducted ?_ ?_
      · rintro more found _ - ⟨conducted, w'', rfl⟩
        refine Goes.pure ⟨?_, w'', rfl⟩
        rw [← List.append_assoc]
        refine conducted.frame leads look.idle idle_nil nofun ?_
        intro hf
        cases hf
        rfl
      · rintro more e _ ⟨conducted, w'', rfl⟩
        refine ⟨?_, w'', rfl⟩
        rw [← List.append_nil (deeds ++ more)]
        exact conducted.frame leads look.idle idle_nil
          (fun _ he => congrArg _ (Except.error.inj he)) nofun
  · rintro deeds e _ ⟨look, hw⟩
    exact ⟨.unsent (unopened_idle look.idle), hw⟩

theorem fetchSteps_conducted :
    Goes f ⟨r, w⟩ record f.fetchSteps f.recorded.fetchSteps fun done outcome _ =>
      Conducted f r w done outcome := by
  have start : Idle ([.event r (.started r.fileKey)] : List (Deed R Wr S I)) := by
    simp [Deed.handlesWriter, Deed.reportsWriter]
  refine Goes.get_bind (Goes.call_bind (fun _ => .event r (.started r.fileKey)) rfl ?_)
  intro _ w₁ told
  have leads : f.Leads w [.event r (.started r.fileKey)] w₁ := leads_single.mpr told
  refine Goes.bind locate_conducted ?_ ?_
  · rintro deeds found _ - ⟨conducted, w', rfl⟩
    cases found with
    | none =>
      refine emit_bind .unavailable fun w'' => Goes.pure ?_
      have unavailable : Idle ([.event r .unavailable] : List (Deed R Wr S I)) := by
        simp [Deed.handlesWriter, Deed.reportsWriter]
      refine conducted.frame leads start unavailable ?_ fun _ => rfl
      intro e he
      cases he
    | some place =>
      refine Goes.bind (decodeEntry_goes place.1) ?_ ?_
      · rintro more ⟨image, plan⟩ left - decode
        refine Goes.pure ?_
        rw [List.append_nil]
        exact conducted.found leads start decode.idle
      · rintro more e left decode
        exact conducted.found leads start decode.idle
  · rintro deeds e _ ⟨conducted, w', rfl⟩
    rw [← List.append_nil (_ :: deeds)]
    refine conducted.frame leads start idle_nil ?_ ?_
    · intro _ he
      exact congrArg _ (Except.error.inj he)
    · intro hn
      cases hn

theorem fetch_conducted (f : Fetcher W R Wr S I E) (r : Request) (w : W) :
    Conducted f r w (f.trace r w) (f.fetch r w).1.1 :=
  fetch_of_goes fetchSteps_conducted

end

/-- In this fetch the source writes: it was asked for its program when there was a writer for it,
and the program was run on that writer from this world on. -/
def Sends (f : Fetcher W R Wr S I E) (r : Request) (w : W) (program : Transfer) (writer : Wr)
    (start : W) : Prop :=
  ∃ before after, f.trace r w = before ++ .stage r.fileKey (.ok (some writer)) ::
      .transfer r.remoteUrl program :: after ∧
    f.Leads w (before ++ [.stage r.fileKey (.ok (some writer)), .transfer r.remoteUrl program])
      start

end Fetcher

/-- There is only one place to split a list at its only element of a kind. -/
theorem split_unique {p : α → Bool} {a b : α} {pre post pre' post' : List α}
    (h : pre ++ a :: post = pre' ++ b :: post') (ha : p a = true) (before : ∀ c ∈ pre', p c = false)
    (after : ∀ c ∈ post', p c = false) : pre = pre' ∧ a = b ∧ post = post' := by
  rcases List.append_eq_append_iff.mp h with ⟨more, hp, hm⟩ | ⟨more, hp, hm⟩
  · cases more with
    | nil =>
      obtain ⟨rfl, rfl⟩ := List.cons.inj hm
      exact ⟨by simp [hp], rfl, rfl⟩
    | cons c more =>
      obtain ⟨rfl, -⟩ := List.cons.inj hm
      have hn := before a (by simp [hp])
      simp [ha] at hn
  · cases more with
    | nil =>
      obtain ⟨rfl, rfl⟩ := List.cons.inj hm
      exact ⟨by simp [hp], rfl, rfl⟩
    | cons c more =>
      obtain ⟨rfl, rfl⟩ := List.cons.inj hm
      have hn := after a (by simp)
      simp [ha] at hn

section

variable {r : Request} {writer last : Wr} {refused : Bool} {result : Except Fault Unit}
  {talk : Talk} {deeds : List (Deed R Wr S I)} {outcome : Except (FetchFault E) (Option α)}

theorem Concludes.finish (h : Concludes r last refused result deeds outcome) :
    ∃ finish after, deeds = finish :: after ∧ Finishes last result finish ∧
      ∀ deed ∈ after, deed.handlesWriter = false := by
  cases h with
  | committed reply quiet => exact ⟨_, _, rfl, .commit reply, quiet⟩
  | withdrawn e reply hr idle =>
    exact ⟨_, _, rfl, .abort e reply, fun deed hd => (idle deed hd).1⟩
  | failed e reply hr quiet told => exact ⟨_, _, rfl, .abort e reply, quiet⟩

theorem Concludes.unopened (h : Concludes r last refused result deeds outcome) :
    ∀ deed ∈ deeds, deed.opensWriter = false := by
  obtain ⟨finish, after, rfl, finishes, quiet⟩ := h.finish
  exact List.forall_mem_cons.mpr ⟨finishes.finishes.1, unopened_unhandled quiet⟩

theorem Concludes.faultless (h : Concludes r last refused result deeds outcome) :
    writeFaults deeds = [] := by
  obtain ⟨finish, after, rfl, finishes, quiet⟩ := h.finish
  have hf : finish.writeFault? = none := by
    cases finishes <;> rfl
  rw [writeFaults, List.filterMap_cons_none hf]
  exact writeFaults_unhandled quiet

theorem Concludes.untaken (h : Concludes r last refused result deeds outcome) :
    Deed.accepted deeds = ByteArray.empty := by
  obtain ⟨finish, after, rfl, finishes, quiet⟩ := h.finish
  have ht : finish.taken = ByteArray.empty := by
    cases finishes <;> rfl
  rw [Deed.accepted_cons, ht, ByteArray.empty_append, accepted_unhandled quiet]

theorem Conveys.unopened (h : Conveys writer talk deeds last) :
    ∀ deed ∈ deeds, deed.opensWriter = false := by
  intro deed hd
  cases deed with
  | stage key reply => cases h.uses _ hd
  | _ => rfl

end

def Deed.concludes (deed : Deed R Wr S I) : Bool := deed.finishesWriter || deed.reportsWriter

theorem inconclusive_idle {deeds : List (Deed R Wr S I)} (h : Idle deeds) :
    ∀ deed ∈ deeds, deed.concludes = false := by
  intro deed hd
  obtain ⟨hh, hr⟩ := h deed hd
  cases deed with
  | commit writer reply => cases hh
  | abort writer reply => cases hh
  | event s e => exact hr
  | _ => rfl

theorem inconclusive_uses {deed : Deed R Wr S I} (h : deed.usesWriter) :
    deed.concludes = false := by
  cases deed with
  | offer writer bytes reply after => rfl
  | flush writer reply after => rfl
  | _ => cases h

/-- What concludes a transfer stands behind it. -/
theorem Conveys.mem_behind {key url : String} {program : Transfer} {opened writer last : Wr}
    {talk : Talk} {before during ending : List (Deed R Wr S I)}
    (conveys : Conveys writer talk during last) (idle : Idle before) {deed : Deed R Wr S I}
    (hc : deed.concludes = true) :
    deed ∈ before ++ .stage key (.ok (some opened)) :: .transfer url program :: (during ++ ending) ↔
      deed ∈ ending := by
  have hb : deed ∉ before := fun hm => by simp [inconclusive_idle idle deed hm] at hc
  have hu : deed ∉ during := fun hm => by simp [inconclusive_uses (conveys.uses deed hm)] at hc
  have hs : deed ≠ .stage key (.ok (some opened)) := by rintro rfl; cases hc
  have hp : deed ≠ .transfer url program := by rintro rfl; cases hc
  simp [hb, hu, hs, hp]

/-- Something is concluded only once a writer was opened. -/
theorem WriterLife.opened {r : Request} {deeds : List (Deed R Wr S I)} (life : WriterLife r deeds)
    {deed : Deed R Wr S I} (hd : deed ∈ deeds) (hc : deed.concludes = true) :
    deeds.any Deed.opensWriter = true := by
  cases life with
  | unasked idle => simp [inconclusive_idle idle deed hd] at hc
  | unopened idle none quiet =>
    rcases List.mem_append.mp hd with hd | hd
    · simp [inconclusive_idle idle deed hd] at hc
    · rcases List.mem_cons.mp hd with rfl | hd
      · cases hc
      · simp [inconclusive_idle quiet deed hd] at hc
  | finished => simp [Deed.opensWriter]

/-- A fetch that tells of a transfer that failed commits nothing. -/
theorem WriterLife.uncommitted {r : Request} {deeds : List (Deed R Wr S I)}
    (life : WriterLife r deeds) {s : Request} {m : String}
    (hd : .event s (.downloadFailed m) ∈ deeds) (writer : Wr) (reply : Except Fault Unit) :
    .commit writer reply ∉ deeds := by
  intro hc
  cases life with
  | unasked idle => cases (idle _ hc).1
  | unopened idle none quiet =>
    rcases List.mem_append.mp hc with hc | hc
    · cases (idle _ hc).1
    · rcases List.mem_cons.mp hc with hc | hc
      · cases hc
      · cases (quiet _ hc).1
  | finished idle plays conveys took finishes quiet committed failed =>
    rcases List.mem_cons.mp ((conveys.mem_behind idle rfl).mp hd) with he | hd
    · cases finishes <;> cases he
    · obtain ⟨e, rfl, -⟩ := failed s m hd
      rcases List.mem_cons.mp ((conveys.mem_behind idle rfl).mp hc) with he | hc
      · cases finishes
        cases he
      · cases quiet _ hc

namespace Fetcher

namespace Sends

variable {f : Fetcher W R Wr S I E} {r : Request} {w start : W} {program : Transfer} {writer : Wr}

/-- The program was indeed run on the writer, from the world that the deeds before led to, and the
fetch concluded as the run ended. -/
theorem conducted (h : f.Sends r w program writer start) :
    ∃ before during ending result last w',
      f.trace r w = before ++ .stage r.fileKey (.ok (some writer)) ::
        .transfer r.remoteUrl program :: (during ++ ending) ∧ Idle before ∧
      f.Leads w (before ++ [.stage r.fileKey (.ok (some writer)), .transfer r.remoteUrl program])
        start ∧
      f.store.writer.run program (writer, start) = (result, (last, w')) ∧
      Conveys writer (f.store.writer.talk program (writer, start)) during last ∧
      Concludes r last (f.store.writer.talk program (writer, start)).refused result ending
        (f.fetch r w).1.1 := by
  obtain ⟨before, after, ht, leads⟩ := h
  have conducted := f.fetch_conducted r w
  rw [ht] at conducted ⊢
  generalize hd : before ++ .stage r.fileKey (.ok (some writer)) ::
    .transfer r.remoteUrl program :: after = deeds at conducted
  cases conducted with
  | unsent unopened =>
    subst hd
    cases unopened (.stage r.fileKey (.ok (some writer))) (by simp)
  | @sent before' during ending program' writer' last _ w' result _ idle leads' run conveys ends =>
    have rest : ∀ deed ∈ .transfer r.remoteUrl program' :: (during ++ ending),
        Deed.opensWriter deed = false :=
      List.forall_mem_cons.mpr
        ⟨rfl, List.forall_mem_append.mpr ⟨conveys.unopened, ends.unopened⟩⟩
    -- Both lists part at their only deed that opens a writer.
    obtain ⟨rfl, hs, hp⟩ := split_unique hd rfl (unopened_idle idle) rest
    obtain ⟨-, hw⟩ := Deed.stage.inj hs
    obtain rfl : writer = writer' := Option.some.inj (Except.ok.inj hw)
    obtain ⟨ht', rfl⟩ := List.cons.inj hp
    obtain ⟨-, rfl⟩ := Deed.transfer.inj ht'
    obtain rfl := leads_unique leads leads'
    exact ⟨before, during, ending, result, last, w', rfl, idle, leads, run, conveys, ends⟩

/-- The faults of the fetch are those that the source was told of, and what concludes it comes after
the run. -/
theorem concluded (h : f.Sends r w program writer start) :
    ∃ ending result last w', f.store.writer.run program (writer, start) = (result, (last, w')) ∧
      writeFaults (f.trace r w) = (f.store.writer.talk program (writer, start)).faults ∧
      (∀ deed : Deed R Wr S I, deed.concludes → (deed ∈ f.trace r w ↔ deed ∈ ending)) ∧
      Concludes r last (f.store.writer.talk program (writer, start)).refused result ending
        (f.fetch r w).1.1 := by
  obtain ⟨before, during, ending, result, last, w', ht, idle, -, run, conveys, ends⟩ := h.conducted
  rw [ht]
  refine ⟨ending, result, last, w', run, ?_, ?_, ends⟩
  · change writeFaults (before ++ ([_, _] ++ (during ++ ending))) = _
    simp only [writeFaults_append, ends.faultless, conveys.faults_eq,
      writeFaults_unhandled fun deed hd => (idle deed hd).1, List.nil_append, List.append_nil]
    rfl
  · exact fun deed hc => conveys.mem_behind idle hc

/-- The bytes that writers took during the fetch are those that the source was told of. -/
theorem accepted (h : f.Sends r w program writer start) :
    Deed.accepted (f.trace r w) = (f.store.writer.talk program (writer, start)).accepted := by
  obtain ⟨before, during, ending, result, last, w', ht, idle, -, -, conveys, ends⟩ := h.conducted
  rw [ht]
  change Deed.accepted (before ++ ([_, _] ++ (during ++ ending))) = _
  rw [Deed.accepted_append, Deed.accepted_append, Deed.accepted_append, conveys.accepted_eq,
    ends.untaken, accepted_unhandled fun deed hd => (idle deed hd).1]
  simp [Deed.accepted, Deed.taken]

end Sends

/-- Once a writer was opened the source writes. -/
theorem sends_of_opened {f : Fetcher W R Wr S I E} {r : Request} {w : W}
    (h : (f.trace r w).any Deed.opensWriter = true) :
    ∃ program writer start, f.Sends r w program writer start := by
  have conducted := f.fetch_conducted r w
  generalize ht : f.trace r w = deeds at conducted
  cases conducted with
  | unsent unopened =>
    obtain ⟨deed, hd, ho⟩ := List.any_eq_true.mp h
    simp [unopened deed (ht ▸ hd)] at ho
  | sent idle leads run conveys ends => exact ⟨_, _, _, _, _, ht, leads⟩

namespace Sends

variable {f : Fetcher W R Wr S I E} {r : Request} {w start : W} {program : Transfer} {writer : Wr}

/-- A transfer that ended well is committed. -/
theorem committed (h : f.Sends r w program writer start)
    (ok : (f.store.writer.run program (writer, start)).1 = .ok ()) :
    ∃ writer reply, .commit writer reply ∈ f.trace r w := by
  obtain ⟨ending, result, last, w', run, -, mem, ends⟩ := h.concluded
  rw [run] at ok
  obtain rfl : result = .ok () := ok
  cases ends with
  | committed reply quiet => exact ⟨last, reply, (mem _ rfl).mpr List.mem_cons_self⟩

theorem error_of_uncommitted (h : f.Sends r w program writer start)
    (uncommitted : ∀ writer reply, .commit writer reply ∉ f.trace r w) :
    ∃ e, (f.store.writer.run program (writer, start)).1 = .error e := by
  cases hr : (f.store.writer.run program (writer, start)).1 with
  | ok _ =>
    obtain ⟨last, reply, committed⟩ := h.committed hr
    exact absurd committed (uncommitted last reply)
  | error e => exact ⟨e, rfl⟩

/-- A transfer that ended with a fault is aborted and not committed. The fault is the store's if a
call to the writer had failed, and else it is reported as the source's. -/
theorem aborted (h : f.Sends r w program writer start) {e : Fault}
    (error : (f.store.writer.run program (writer, start)).1 = .error e) :
    (∀ writer reply, .commit writer reply ∉ f.trace r w) ∧
      (∃ reply, .abort (f.store.writer.run program (writer, start)).2.1 reply ∈ f.trace r w) ∧
      (if writeFaults (f.trace r w) = [] then
        (f.fetch r w).1.1 = .ok none ∧ .event r (.downloadFailed e.message) ∈ f.trace r w
      else (f.fetch r w).1.1 = .error (.store e) ∧
        ∀ s m, .event s (.downloadFailed m) ∉ f.trace r w) := by
  obtain ⟨ending, result, last, w', run, faults, mem, ends⟩ := h.concluded
  rw [run] at error ⊢
  obtain rfl : result = .error e := error
  have hr := Talk.refused_iff (f.store.writer.talk program (writer, start))
  rw [faults]
  generalize (f.fetch r w).1.1 = outcome at ends ⊢
  cases ends with
  | withdrawn _ reply refused idle =>
    refine ⟨?_, ⟨reply, (mem _ rfl).mpr List.mem_cons_self⟩, ?_⟩
    · intro writer reply' hm
      rcases List.mem_cons.mp ((mem _ rfl).mp hm) with hm | hm
      · cases hm
      · cases (idle _ hm).1
    · rw [if_neg (hr.mp refused)]
      refine ⟨rfl, ?_⟩
      intro s m hm
      rcases List.mem_cons.mp ((mem _ rfl).mp hm) with hm | hm
      · cases hm
      · cases (idle _ hm).2
  | failed _ reply unrefused quiet told =>
    refine ⟨?_, ⟨reply, (mem _ rfl).mpr List.mem_cons_self⟩, ?_⟩
    · intro writer reply' hm
      rcases List.mem_cons.mp ((mem _ rfl).mp hm) with hm | hm
      · cases hm
      · cases quiet _ hm
    · rw [if_pos (Classical.not_not.mp (mt hr.mpr (by simp [unrefused])))]
      exact ⟨rfl, (mem _ rfl).mpr (List.mem_cons_of_mem _ told)⟩

end Sends

end Fetcher

end ImageCache
