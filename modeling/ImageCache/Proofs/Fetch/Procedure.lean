import ImageCache.Proofs.Fetch.Course

namespace ImageCache

open Fetcher

variable {W R Wr S I E : Type}

/-- Whether a deed is a call of its own, rather than the use of an open handle or a message. -/
def Deed.isCall : Deed R Wr S I → Bool
  | .peruse _ _ _ _ => false
  | .rewind _ _ _ => false
  | .offer _ _ _ _ => false
  | .flush _ _ _ => false
  | .event _ _ => false
  | .notice _ => false
  | _ => true

def calls (deeds : List (Deed R Wr S I)) : List (Deed R Wr S I) := deeds.filter Deed.isCall

inductive Search (R : Type) where
  | fault (e : Fault)
  | absent
  | found (entry : R) (provenance : Provenance)

/-- Where the store may have the bytes, in the order in which it is asked. -/
def Request.places (r : Request) : List (String × Provenance) :=
  (r.fileKey, .diskExact) :: r.reuseTags.map fun tag => (r.renditionKey tag, .reuse tag)

/-- The store is asked for one place after the other, up to the first that is not absent. -/
inductive Probe : List (String × Provenance) → List (Deed R Wr S I) → Search R → Prop
  | spent : Probe [] [] .absent
  | fault (key : String) (provenance : Provenance) (rest : List (String × Provenance)) (e : Fault) :
      Probe ((key, provenance) :: rest) [.read key (.error e)] (.fault e)
  | hit (key : String) (provenance : Provenance) (rest : List (String × Provenance)) (entry : R) :
      Probe ((key, provenance) :: rest) [.read key (.ok (some entry))] (.found entry provenance)
  | miss (key : String) (provenance : Provenance) {rest : List (String × Provenance)}
      {more : List (Deed R Wr S I)} {search : Search R} (h : Probe rest more search) :
      Probe ((key, provenance) :: rest) (.read key (.ok none) :: more) search

/-- One entry is opened, one transfer runs into it, and it is committed and read back or aborted, as
the transfer ended. -/
inductive Procurement (r : Request) : List (Deed R Wr S I) → Search R → Prop
  | unopened (e : Fault) : Procurement r [.stage r.fileKey (.error e)] (.fault e)
  | conflict : Procurement r [.stage r.fileKey (.ok none)] .absent
  | aborted {writer last : Wr} {program : Transfer} {talk : Talk} {e : Fault}
      (reply : Except Fault Unit) (plays : program.Plays talk (.error e)) :
      Procurement r
        [.stage r.fileKey (.ok (some writer)), .transfer r.remoteUrl program, .abort last reply]
        (if talk.refused then .fault e else .absent)
  | uncommitted {writer last : Wr} {program : Transfer} {talk : Talk} (e : Fault)
      (plays : program.Plays talk (.ok ())) :
      Procurement r
        [.stage r.fileKey (.ok (some writer)), .transfer r.remoteUrl program,
          .commit last (.error e)] (.fault e)
  | committed {writer last : Wr} {program : Transfer} {talk : Talk} {more : List (Deed R Wr S I)}
      {search : Search R} (plays : program.Plays talk (.ok ()))
      (back : Probe [(r.fileKey, .network)] more search) :
      Procurement r
        (.stage r.fileKey (.ok (some writer)) :: .transfer r.remoteUrl program ::
          .commit last (.ok ()) :: more) search

/-- The decision procedure: what the store has, else a download. -/
inductive Procedure (r : Request) : List (Deed R Wr S I) → Search R → Prop
  | stored {asked : List (Deed R Wr S I)} {search : Search R} (probe : Probe r.places asked search)
      (h : search ≠ .absent) : Procedure r asked search
  | downloaded {asked more : List (Deed R Wr S I)} {search : Search R}
      (probe : Probe r.places asked .absent) (procured : Procurement r more search) :
      Procedure r (asked ++ more) search

@[simp]
theorem calls_append (first second : List (Deed R Wr S I)) :
    calls (first ++ second) = calls first ++ calls second :=
  List.filter_append first second

theorem calls_event (r : Request) (event : Event) (more : List (Deed R Wr S I)) :
    calls (.event r event :: more) = calls more := rfl

theorem calls_perusals {deeds : List (Deed R Wr S I)} (h : ∀ deed ∈ deeds, deed.isPerusal) :
    calls deeds = [] := by
  refine List.filter_eq_nil_iff.mpr fun deed hd hc => ?_
  cases deed with
  | peruse entry n reply after => cases hc
  | rewind entry reply after => cases hc
  | _ => cases h _ hd

/-- The use of a writer is no call. -/
theorem Conveys.calls_nil {writer last : Wr} {talk : Talk} {deeds : List (Deed R Wr S I)}
    (h : Conveys writer talk deeds last) : calls deeds = [] := by
  induction h with
  | nil => rfl
  | cons first _ ih =>
    rw [calls_append, ih, List.append_nil]
    cases first with
    | write bytes reply => rfl
    | flush reply => rfl
    | horizon n => rfl

theorem Probe.last_read {places : List (String × Provenance)} {asked : List (Deed R Wr S I)}
    {entry : R} {provenance : Provenance} (h : Probe places asked (.found entry provenance)) :
    ∃ key, asked.getLast? = some (.read key (.ok (some entry))) := by
  generalize hs : Search.found entry provenance = search at h
  induction h with
  | spent => cases hs
  | fault => cases hs
  | hit key =>
    cases hs
    exact ⟨key, rfl⟩
  | miss key provenance h ih =>
    obtain ⟨last, hl⟩ := ih hs
    exact ⟨last, by simp [List.getLast?_cons, hl]⟩

theorem Procurement.last_read {r : Request} {asked : List (Deed R Wr S I)} {entry : R}
    {provenance : Provenance} (h : Procurement r asked (.found entry provenance)) :
    ∃ key, asked.getLast? = some (.read key (.ok (some entry))) := by
  generalize hs : Search.found entry provenance = search at h
  cases h with
  | aborted reply plays => split at hs <;> cases hs
  | committed plays back =>
    subst hs
    obtain ⟨key, hk⟩ := back.last_read
    exact ⟨key, by simp [List.getLast?_cons, hk]⟩
  | _ => cases hs

/-- An entry that was found is the one that the last call gave. -/
theorem Procedure.last_read {r : Request} {asked : List (Deed R Wr S I)} {entry : R}
    {provenance : Provenance} (h : Procedure r asked (.found entry provenance)) :
    ∃ key, asked.getLast? = some (.read key (.ok (some entry))) := by
  cases h with
  | stored probe => exact probe.last_read
  | downloaded probe procured =>
    obtain ⟨key, hk⟩ := procured.last_read
    exact ⟨key, by simp [List.getLast?_append, hk]⟩

/-- How a step of the search that gave an outcome counts for the procedure. -/
inductive Means : Except (FetchFault E) (Option (R × Provenance)) → Search R → Prop
  | fault (e : Fault) : Means (.error (.store e)) (.fault e)
  | absent : Means (.ok none) .absent
  | found (entry : R) (provenance : Provenance) :
      Means (.ok (some (entry, provenance))) (.found entry provenance)

theorem Scan.probe {r : Request} {tags : List String} {deeds : List (Deed R Wr S I)}
    {outcome : Except (FetchFault E) (Option (R × Provenance))} (h : Scan r tags deeds outcome) :
    ∃ search, Means outcome search ∧
      Probe (tags.map fun tag => (r.renditionKey tag, .reuse tag)) (calls deeds) search := by
  induction h with
  | spent => exact ⟨.absent, .absent, .spent⟩
  | fault tag rest e => exact ⟨.fault e, .fault e, .fault _ _ _ e⟩
  | hit tag rest entry => exact ⟨.found entry _, .found entry _, .hit _ _ _ entry⟩
  | miss h ih =>
    obtain ⟨search, hm, hp⟩ := ih
    exact ⟨search, hm, .miss _ _ hp⟩

theorem Look.probe {r : Request} {deeds : List (Deed R Wr S I)}
    {outcome : Except (FetchFault E) (Option (R × Provenance))} (h : Look r deeds outcome) :
    ∃ search, Means outcome search ∧ Probe r.places (calls deeds) search := by
  cases h with
  | fault e => exact ⟨.fault e, .fault e, .fault _ _ _ e⟩
  | hit entry => exact ⟨.found entry _, .found entry _, .hit _ _ _ entry⟩
  | scan h =>
    obtain ⟨search, hm, hp⟩ := h.probe
    exact ⟨search, hm, .miss _ _ hp⟩

theorem Sending.calls_transfer {url : String} {writer last : Wr} {talk : Talk}
    {result : Except Fault Unit} {deeds : List (Deed R Wr S I)}
    (h : Sending url writer deeds talk result last) :
    ∃ program : Transfer, program.Plays talk result ∧ calls deeds = [.transfer url program] := by
  cases h with
  | intro plays conveys => exact ⟨_, plays, congrArg (List.cons _) conveys.calls_nil⟩

theorem calls_abandoned {last : Wr} {more : List (Deed R Wr S I)} (reply : Except Fault Unit)
    (h : calls more = []) :
    calls (.abort last reply :: (abortNotice reply ++ more)) = [.abort last reply] := by
  change _ :: calls (abortNotice reply ++ more) = _
  rw [calls_append, h]
  cases reply with
  | ok _ => rfl
  | error e => rfl

theorem Download.procurement {r : Request} {deeds : List (Deed R Wr S I)}
    {outcome : Except (FetchFault E) (Option R)} (h : Download r deeds outcome) :
    ∃ search, Means (outcome.map (·.map (·, .network))) search ∧
      Procurement r (calls deeds) search := by
  cases h with
  | unstaged e => exact ⟨.fault e, .fault e, .unopened e⟩
  | conflict => exact ⟨.absent, .absent, .conflict⟩
  | @sent writer last talk result sent ending outcome sending ends =>
    obtain ⟨program, plays, hc⟩ := sending.calls_transfer
    have he : calls (.event r (.downloading r.remoteUrl) :: .stage r.fileKey (.ok (some writer)) ::
        (sent ++ ending)) =
          .stage r.fileKey (.ok (some writer)) :: .transfer r.remoteUrl program ::
            calls ending := by
      change _ :: calls (sent ++ ending) = _
      rw [calls_append, hc, List.singleton_append]
    rw [he]
    cases ends with
    | uncommitted e => exact ⟨.fault e, .fault e, .uncommitted e plays⟩
    | unread e => exact ⟨.fault e, .fault e, .committed plays (.fault _ _ _ e)⟩
    | committed found =>
      cases found with
      | none => exact ⟨.absent, .absent, .committed plays (.miss _ _ .spent)⟩
      | some entry => exact ⟨.found entry _, .found entry _, .committed plays (.hit _ _ _ entry)⟩
    | refused e reply hr =>
      rw [calls_abandoned reply rfl]
      refine ⟨_, ?_, .aborted reply plays⟩
      rw [if_pos hr]
      exact .fault e
    | failed e reply hr =>
      rw [calls_abandoned reply rfl]
      refine ⟨_, ?_, .aborted reply plays⟩
      rw [hr, if_neg Bool.false_ne_true]
      exact .absent

theorem Locate.procedure {r : Request} {deeds : List (Deed R Wr S I)}
    {outcome : Except (FetchFault E) (Option (R × Provenance))} (h : Locate r deeds outcome) :
    ∃ search, Means outcome search ∧ Procedure r (calls deeds) search := by
  cases h with
  | fault look =>
    obtain ⟨search, hm, probe⟩ := look.probe
    refine ⟨search, hm, .stored probe ?_⟩
    rintro rfl
    cases hm
  | found look =>
    obtain ⟨search, hm, probe⟩ := look.probe
    refine ⟨search, hm, .stored probe ?_⟩
    rintro rfl
    cases hm
  | downloaded look download =>
    obtain ⟨search, hm, probe⟩ := look.probe
    cases hm with
    | absent =>
      obtain ⟨search, hm, procured⟩ := download.procurement
      rw [calls_append]
      exact ⟨search, hm, .downloaded probe procured⟩

theorem Decode.calls_nil {f : Fetcher W R Wr S I E} {entry : R} {s left : Session W}
    {deeds : List (Deed R Wr S I)} {outcome : Except (FetchFault E) (I × DecodePlan)}
    (h : Decode f entry s deeds outcome left) : calls deeds = [] := by
  cases h with
  | noSize bounds perusals =>
    rw [calls_append, calls_perusals perusals]
    rfl
  | noRewind bounds rewind perusals =>
    rw [calls_append, calls_perusals perusals]
    rfl
  | noImage bounds rewind told image perusals =>
    obtain ⟨hd, hm⟩ := List.forall_mem_append.mp perusals
    rw [calls_append, calls_perusals hd, List.nil_append, calls_event, calls_append,
      calls_perusals hm]
    rfl
  | image bounds rewind told decode perusals =>
    obtain ⟨hd, hm⟩ := List.forall_mem_append.mp perusals
    rw [calls_append, calls_perusals hd, List.nil_append, calls_event]
    exact calls_perusals hm

end ImageCache
