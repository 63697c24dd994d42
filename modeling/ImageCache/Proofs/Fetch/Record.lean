import ImageCache.Fetch.Fetcher

namespace ImageCache

/-- What a collaborator was asked, and its reply. Handles stand as they were before and after. -/
inductive Deed (R Wr S I : Type) where
  | read (key : String) (reply : Except Fault (Option R))
  | stage (key : String) (reply : Except Fault (Option Wr))
  | peruse (entry : R) (n : Nat) (reply : Except Fault ByteArray) (after : R)
  | rewind (entry : R) (reply : Except Fault Unit) (after : R)
  | offer (writer : Wr) (bytes : ByteArray) (reply : Except Fault Nat) (after : Wr)
  | flush (writer : Wr) (reply : Except Fault Unit) (after : Wr)
  | commit (writer : Wr) (reply : Except Fault Unit)
  | abort (writer : Wr) (reply : Except Fault Unit)
  | maintain (outcome : Maintenance)
  /-- The source set out to send a resource. What it sends is up to this program. -/
  | transfer (url : String) (program : Transfer)
  | openStream (url : String) (reply : Except Fault (Option S))
  | stream (stream : S) (n : Nat) (reply : Except Fault ByteArray) (after : S)
  | lookUp (key : String) (reply : Option I)
  | keep (key : String) (image : I)
  | forgetAll
  | event (request : Request) (event : Event)
  | notice (notice : Notice)

variable {W R Wr S I E α D : Type}

def noted (deed : α → D) (op : StateM W α) : StateM (W × List D) α := fun (w, record) =>
  let (a, w) := op w
  (a, (w, record ++ [deed a]))

def notedWith {H : Type} (deed : H → α → H → D) (op : H × W → α × (H × W)) :
    H × (W × List D) → α × (H × (W × List D)) := fun (h, (w, record)) =>
  let (a, (after, w)) := op (h, w)
  (a, (after, (w, record ++ [deed h a after])))

def ByteStore.recorded (s : ByteStore W R Wr) : ByteStore (W × List (Deed R Wr S I)) R Wr where
  read key := noted (.read key) (s.read key)
  stage key := noted (.stage key) (s.stage key)
  entry :=
    { read := fun n => notedWith (fun entry reply after => .peruse entry n reply after)
        (s.entry.read n)
      horizon := fun (entry, (w, _)) => s.entry.horizon (entry, w)
      rewind := notedWith .rewind s.entry.rewind }
  writer :=
    { write := fun bytes => notedWith (fun writer reply after => .offer writer bytes reply after)
        (s.writer.write bytes)
      flush := notedWith .flush s.writer.flush
      horizon := fun (writer, (w, _)) => s.writer.horizon (writer, w) }
  commit writer := noted (.commit writer) (s.commit writer)
  abort writer := noted (.abort writer) (s.abort writer)
  maintain := noted .maintain s.maintain

def Source.recorded (s : Source W S) : Source (W × List (Deed R Wr S I)) S where
  transfer url := noted (.transfer url) (s.transfer url)
  openStream url := noted (.openStream url) (s.openStream url)
  stream :=
    { read := fun n => notedWith (fun stream reply after => .stream stream n reply after)
        (s.stream.read n)
      horizon := fun (stream, (w, _)) => s.stream.horizon (stream, w) }

def MemoryTier.recorded (m : MemoryTier W I) : MemoryTier (W × List (Deed R Wr S I)) I where
  get key := noted (.lookUp key) (m.get key)
  set key image := noted (fun _ => .keep key image) (m.set key image)
  clear := noted (fun _ => .forgetAll) m.clear

def Observer.recorded (o : Observer W) : Observer (W × List (Deed R Wr S I)) where
  onEvent r e := noted (fun _ => .event r e) (o.onEvent r e)

/-- The fetcher with every call to a collaborator written down. -/
def Fetcher.recorded (f : Fetcher W R Wr S I E) :
    Fetcher (W × List (Deed R Wr S I)) R Wr S I E where
  settings := f.settings
  store := f.store.recorded
  source := f.source.recorded
  codec := f.codec
  memory := f.memory.recorded
  observer := f.observer.recorded
  notice n := noted (fun _ => .notice n) (f.notice n)

namespace Fetcher

/-- Asked for this deed in the world `w`, the collaborators reply as it says and leave `after`. -/
def Does (f : Fetcher W R Wr S I E) (w : W) (deed : Deed R Wr S I) (after : W) : Prop :=
  match deed with
  | .read key reply => f.store.read key w = (reply, after)
  | .stage key reply => f.store.stage key w = (reply, after)
  | .peruse entry n reply next => f.store.entry.read n (entry, w) = (reply, (next, after))
  | .rewind entry reply next => f.store.entry.rewind (entry, w) = (reply, (next, after))
  | .offer writer bytes reply next =>
    f.store.writer.write bytes (writer, w) = (reply, (next, after))
  | .flush writer reply next => f.store.writer.flush (writer, w) = (reply, (next, after))
  | .commit writer reply => f.store.commit writer w = (reply, after)
  | .abort writer reply => f.store.abort writer w = (reply, after)
  | .maintain outcome => f.store.maintain w = (outcome, after)
  | .transfer url program => f.source.transfer url w = (program, after)
  | .openStream url reply => f.source.openStream url w = (reply, after)
  | .stream stream n reply next => f.source.stream.read n (stream, w) = (reply, (next, after))
  | .lookUp key reply => f.memory.get key w = (reply, after)
  | .keep key image => f.memory.set key image w = ((), after)
  | .forgetAll => f.memory.clear w = ((), after)
  | .event r e => f.observer.onEvent r e w = ((), after)
  | .notice n => f.notice n w = ((), after)

/-- One deed after the other leads from the world `w` to `after`. -/
def Leads (f : Fetcher W R Wr S I E) (w : W) : List (Deed R Wr S I) → W → Prop
  | [], after => w = after
  | deed :: rest, after => ∃ next, f.Does w deed next ∧ f.Leads next rest after

theorem leads_nil (f : Fetcher W R Wr S I E) (w : W) : f.Leads w [] w := rfl

theorem leads_single {f : Fetcher W R Wr S I E} {w after : W} {deed : Deed R Wr S I} :
    f.Leads w [deed] after ↔ f.Does w deed after := by
  simp [Leads]

theorem leads_append {f : Fetcher W R Wr S I E} {w after : W}
    {first second : List (Deed R Wr S I)} :
    f.Leads w (first ++ second) after ↔
      ∃ between, f.Leads w first between ∧ f.Leads between second after := by
  induction first generalizing w with
  | nil => simp [Leads]
  | cons deed rest ih =>
    simp only [List.cons_append, Leads, ih]
    constructor
    · rintro ⟨next, hd, between, hr, hs⟩
      exact ⟨between, ⟨next, hd, hr⟩, hs⟩
    · rintro ⟨between, ⟨next, hd, hr⟩, hs⟩
      exact ⟨next, hd, between, hr, hs⟩

/-- What each of the deeds keeps true stays true. -/
theorem leads_keeps {f : Fetcher W R Wr S I E} {P : W → Prop} {deeds : List (Deed R Wr S I)}
    {w after : W} (keeps : ∀ deed ∈ deeds, ∀ u u', P u → f.Does u deed u' → P u')
    (hw : P w) (leads : f.Leads w deeds after) : P after := by
  induction deeds generalizing w with
  | nil => exact (show w = after from leads) ▸ hw
  | cons deed rest ih =>
    obtain ⟨next, does, hr⟩ := leads
    obtain ⟨hdeed, hrest⟩ := List.forall_mem_cons.mp keeps
    exact ih hrest (hdeed w next hw does) hr

/-- A deed leads to one world only. -/
theorem does_unique {f : Fetcher W R Wr S I E} {w after other : W} {deed : Deed R Wr S I}
    (h : f.Does w deed after) (h' : f.Does w deed other) : after = other := by
  cases deed <;> cases h.symm.trans h' <;> rfl

theorem leads_unique {f : Fetcher W R Wr S I E} {w after other : W} {deeds : List (Deed R Wr S I)}
    (h : f.Leads w deeds after) (h' : f.Leads w deeds other) : after = other := by
  induction deeds generalizing w with
  | nil => exact h.symm.trans h'
  | cons deed rest ih =>
    obtain ⟨next, does, hr⟩ := h
    obtain ⟨next', does', hr'⟩ := h'
    obtain rfl := does_unique does does'
    exact ih hr hr'

end Fetcher

open Fetcher

/-- From the session `s` a step of a fetch and the same step of the recorded fetcher end alike. The
record so far has grown by deeds that led from one world to the other, and of these deeds, the
outcome and the session left behind `φ` holds. -/
def Goes (f : Fetcher W R Wr S I E) (s : Session W) (record : List (Deed R Wr S I))
    (step : FetchM W E α) (recorded : FetchM (W × List (Deed R Wr S I)) E α)
    (φ : List (Deed R Wr S I) → Except (FetchFault E) α → Session W → Prop) : Prop :=
  ∃ deeds outcome after, step s = (outcome, after) ∧
    recorded ⟨s.request, (s.world, record)⟩ =
      (outcome, ⟨after.request, (after.world, record ++ deeds)⟩) ∧
    f.Leads s.world deeds after.world ∧ φ deeds outcome after

namespace Goes

variable {β : Type} {f : Fetcher W R Wr S I E} {s : Session W} {record : List (Deed R Wr S I)}

theorem mono {step : FetchM W E α} {recorded : FetchM (W × List (Deed R Wr S I)) E α}
    {φ ψ : List (Deed R Wr S I) → Except (FetchFault E) α → Session W → Prop}
    (h : Goes f s record step recorded φ)
    (hψ : ∀ deeds outcome after, f.Leads s.world deeds after.world →
      φ deeds outcome after → ψ deeds outcome after) :
    Goes f s record step recorded ψ := by
  obtain ⟨deeds, outcome, after, hs, hr, hl, hφ⟩ := h
  exact ⟨deeds, outcome, after, hs, hr, hl, hψ deeds outcome after hl hφ⟩

theorem pure {φ : List (Deed R Wr S I) → Except (FetchFault E) α → Session W → Prop} {a : α}
    (h : φ [] (.ok a) s) : Goes f s record (pure a) (pure a) φ := by
  refine ⟨[], .ok a, s, rfl, ?_, leads_nil f s.world, h⟩
  rw [List.append_nil]
  rfl

theorem bind {step : FetchM W E α} {recorded : FetchM (W × List (Deed R Wr S I)) E α}
    {next : α → FetchM W E β} {recordedNext : α → FetchM (W × List (Deed R Wr S I)) E β}
    {φ : List (Deed R Wr S I) → Except (FetchFault E) α → Session W → Prop}
    {χ : List (Deed R Wr S I) → Except (FetchFault E) β → Session W → Prop}
    (h : Goes f s record step recorded φ)
    (ok : ∀ deeds a after, f.Leads s.world deeds after.world → φ deeds (.ok a) after →
      Goes f after (record ++ deeds) (next a) (recordedNext a) fun more => χ (deeds ++ more))
    (error : ∀ deeds e after, φ deeds (.error e) after → χ deeds (.error e) after) :
    Goes f s record (step >>= next) (recorded >>= recordedNext) χ := by
  obtain ⟨deeds, outcome, middle, hs, hr, hl, hφ⟩ := h
  cases outcome with
  | error e =>
    refine ⟨deeds, .error e, middle, ?_, ?_, hl, error deeds e middle hφ⟩
    · simp only [Bind.bind, ExceptT.bind, ExceptT.mk, StateT.bind, ExceptT.bindCont, hs]
      rfl
    · simp only [Bind.bind, ExceptT.bind, ExceptT.mk, StateT.bind, ExceptT.bindCont, hr]
      rfl
  | ok a =>
    obtain ⟨more, outcome, after, hs', hr', hl', hχ⟩ := ok deeds a middle hl hφ
    refine ⟨deeds ++ more, outcome, after, ?_, ?_, leads_append.mpr ⟨_, hl, hl'⟩, hχ⟩
    · simp [Bind.bind, ExceptT.bind, ExceptT.mk, StateT.bind, ExceptT.bindCont, hs, hs']
    · simp [Bind.bind, ExceptT.bind, ExceptT.mk, StateT.bind, ExceptT.bindCont, hr, hr']

theorem get_bind {next : Session W → FetchM W E α}
    {recordedNext : Session (W × List (Deed R Wr S I)) → FetchM (W × List (Deed R Wr S I)) E α}
    {φ : List (Deed R Wr S I) → Except (FetchFault E) α → Session W → Prop}
    (h : Goes f s record (next s) (recordedNext ⟨s.request, (s.world, record)⟩) φ) :
    Goes f s record (get >>= next) (get >>= recordedNext) φ := h

theorem modify_bind (change : Request → Request) {next : FetchM W E α}
    {recordedNext : FetchM (W × List (Deed R Wr S I)) E α}
    {φ : List (Deed R Wr S I) → Except (FetchFault E) α → Session W → Prop}
    (h : Goes f ⟨change s.request, s.world⟩ record next recordedNext φ) :
    Goes f s record
      (modify (fun t => { t with request := change t.request }) >>= fun _ => next)
      (modify (fun t => { t with request := change t.request }) >>= fun _ => recordedNext) φ := h

theorem throw {φ : List (Deed R Wr S I) → Except (FetchFault E) α → Session W → Prop}
    {e : FetchFault E} (h : φ [] (.error e) s) :
    Goes f s record (MonadExcept.throw e) (MonadExcept.throw e) φ := by
  refine ⟨[], .error e, s, rfl, ?_, leads_nil f s.world, h⟩
  rw [List.append_nil]
  rfl

/-- A step that fails cuts off what would come after it. -/
theorem throw_bind {next : α → FetchM W E β}
    {recordedNext : α → FetchM (W × List (Deed R Wr S I)) E β}
    {φ : List (Deed R Wr S I) → Except (FetchFault E) β → Session W → Prop} {e : FetchFault E}
    (h : φ [] (.error e) s) :
    Goes f s record (MonadExcept.throw e >>= next) (MonadExcept.throw e >>= recordedNext) φ := by
  refine ⟨[], .error e, s, rfl, ?_, leads_nil f s.world, h⟩
  rw [List.append_nil]
  rfl

/-- Whatever is done to the world, with what comes after it. -/
theorem act_bind {op : StateM W α} {recorded : StateM (W × List (Deed R Wr S I)) α} {a : α}
    {after : W} {deeds : List (Deed R Wr S I)} {next : α → FetchM W E β}
    {recordedNext : α → FetchM (W × List (Deed R Wr S I)) E β}
    {χ : List (Deed R Wr S I) → Except (FetchFault E) β → Session W → Prop}
    (ho : op s.world = (a, after))
    (hr : recorded (s.world, record) = (a, (after, record ++ deeds)))
    (hl : f.Leads s.world deeds after)
    (h : Goes f ⟨s.request, after⟩ (record ++ deeds) (next a) (recordedNext a)
      fun more => χ (deeds ++ more)) :
    Goes f s record (FetchM.act op >>= next) (FetchM.act recorded >>= recordedNext) χ := by
  obtain ⟨more, outcome, left, hs, hr', hl', hχ⟩ := h
  refine ⟨deeds ++ more, outcome, left, ?_, ?_, leads_append.mpr ⟨after, hl, hl'⟩, hχ⟩
  · simp [Bind.bind, ExceptT.bind, ExceptT.mk, StateT.bind, ExceptT.bindCont, FetchM.act, ho, hs]
  · simp [Bind.bind, ExceptT.bind, ExceptT.mk, StateT.bind, ExceptT.bindCont, FetchM.act, hr, hr']

/-- A single call to a collaborator, with what comes after it. -/
theorem call_bind (deed : α → Deed R Wr S I) {op : StateM W α} {next : α → FetchM W E β}
    {recordedNext : α → FetchM (W × List (Deed R Wr S I)) E β}
    {χ : List (Deed R Wr S I) → Except (FetchFault E) β → Session W → Prop}
    (does : f.Does s.world (deed (op s.world).1) (op s.world).2)
    (h : ∀ a w, f.Does s.world (deed a) w →
      Goes f ⟨s.request, w⟩ (record ++ [deed a]) (next a) (recordedNext a)
        fun more => χ (deed a :: more)) :
    Goes f s record (FetchM.act op >>= next) (FetchM.act (noted deed op) >>= recordedNext) χ :=
  act_bind rfl rfl (leads_single.mpr does) (h _ _ does)

end Goes

end ImageCache
