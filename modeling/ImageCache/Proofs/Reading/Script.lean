import ImageCache.Proofs.Reading.Finite
import ImageCache.Rehearsal.World

namespace ImageCache.Rehearsal.Stream

/-- No call to the stream fails, but for so many that are interrupted, none comes away with nothing
before the end, and these bytes lie ahead. -/
structure Falters (s : Stream) (ahead : ByteArray) (interruptions : Nat) : Prop where
  wall : s.wall = none
  cues : ∀ cue ∈ s.cues, cue.isInterruption = true ∨ ∃ k, cue = .atMost k ∧ 0 < k
  refrain : ∀ cue ∈ s.refrain, ∃ k, cue = .atMost k ∧ 0 < k
  interruptions : interruptions = (s.cues.filter (·.isInterruption)).length
  ahead : ahead = s.bytes.extract s.position s.bytes.size

variable {s : Stream} {ahead : ByteArray} {interruptions : Nat}

def play (s : Stream) (n : Nat) : Option Cue → Except Fault ByteArray × Stream
  | none => s.deliver n
  | some (.atMost k) => s.deliver (min k n)
  | some (.fails fault) => (.error fault, s)

theorem read_eq_play (h : s.wall = none) (n : Nat) : s.read n = s.nextCue.2.play n s.nextCue.1 := by
  have unblocked : s.blocked n = none := by rw [blocked, h]
  unfold Stream.read
  rw [unblocked]
  obtain ⟨⟨cue, s'⟩, hs⟩ : ∃ out, s.nextCue = out := ⟨_, rfl⟩
  rw [hs]
  cases cue with
  | none => rfl
  | some cue => cases cue <;> rfl

namespace Falters

theorem deliver (h : s.Falters ahead interruptions) (n : Nat) : ∃ piece rest s',
    s.deliver n = (.ok piece, s') ∧ Piece n ahead piece rest ∧ s'.Falters rest interruptions := by
  obtain ⟨bytes, position, cues, refrain, wall⟩ := s
  obtain ⟨hwall, hcues, hrefrain, hcount, ha⟩ := h
  obtain rfl : wall = none := hwall
  obtain rfl : ahead = bytes.extract position bytes.size := ha
  refine ⟨_, _, _, rfl, ?_, rfl, hcues, hrefrain, hcount, rfl⟩
  dsimp only
  rw [extract_behind, extract_from]
  exact .front n _

theorem play_atMost (h : s.Falters ahead interruptions) {k : Nat} (hk : 0 < k) (n : Nat) :
    ∃ piece rest s', s.play n (some (.atMost k)) = (.ok piece, s') ∧ Piece n ahead piece rest ∧
      s'.Falters rest interruptions := by
  obtain ⟨piece, rest, s', hd, hp, hs'⟩ := h.deliver (min k n)
  exact ⟨piece, rest, s', hd, hp.mono (Nat.min_le_right k n) fun hn => Nat.lt_min.mpr ⟨hk, hn⟩, hs'⟩

/-- A call hands out the next bytes or is one of those that are interrupted. -/
theorem read (h : s.Falters ahead interruptions) (n : Nat) :
    (∃ piece rest s', s.read n = (.ok piece, s') ∧ Piece n ahead piece rest ∧
      s'.Falters rest interruptions) ∨
    ∃ e s' fewer, s.read n = (.error e, s') ∧ e.isInterruption = true ∧ fewer < interruptions ∧
      s'.Falters ahead fewer := by
  rw [read_eq_play h.wall]
  obtain ⟨bytes, position, cues, refrain, wall⟩ := s
  obtain ⟨hwall, hcues, hrefrain, hcount, ha⟩ := h
  match cues, refrain with
  | .atMost k :: rest, refrain =>
    obtain ⟨hcue, hrest⟩ := List.forall_mem_cons.mp hcues
    obtain ⟨_, hk, hpos⟩ := hcue.resolve_left nofun
    cases hk
    have next : Falters ⟨bytes, position, rest, refrain, wall⟩ ahead interruptions :=
      ⟨hwall, hrest, hrefrain, hcount, ha⟩
    exact .inl (next.play_atMost hpos n)
  | .fails e :: rest, refrain =>
    obtain ⟨hcue, hrest⟩ := List.forall_mem_cons.mp hcues
    have he : (Cue.fails e).isInterruption = true := hcue.resolve_right nofun
    have next : Falters ⟨bytes, position, rest, refrain, wall⟩ ahead
        (rest.filter (·.isInterruption)).length := ⟨hwall, hrest, hrefrain, rfl, ha⟩
    rw [List.filter_cons_of_pos he] at hcount
    exact .inr ⟨e, _, _, rfl, he, hcount ▸ Nat.lt_succ_self _, next⟩
  | [], .atMost k :: rest =>
    obtain ⟨⟨_, hk, hpos⟩, hrest⟩ := List.forall_mem_cons.mp hrefrain
    cases hk
    have quiet : (rest.filter (·.isInterruption)).length = 0 := by
      refine List.length_eq_zero_iff.mpr (List.filter_eq_nil_iff.mpr fun cue hc => ?_)
      obtain ⟨_, rfl, -⟩ := hrest cue hc
      exact nofun
    have next : Falters ⟨bytes, position, rest, .atMost k :: rest, wall⟩ ahead interruptions :=
      ⟨hwall, fun cue hc => .inr (hrest cue hc), hrefrain, hcount.trans quiet.symm, ha⟩
    exact .inl (next.play_atMost hpos n)
  | [], .fails e :: rest =>
    obtain ⟨⟨_, hk, -⟩, -⟩ := List.forall_mem_cons.mp hrefrain
    cases hk
  | [], [] => exact .inl (deliver ⟨hwall, hcues, hrefrain, hcount, ha⟩ n)

theorem bound (h : s.Falters ahead interruptions) : ahead.size + interruptions ≤ s.horizon := by
  rw [h.ahead, h.interruptions, ByteArray.size_extract, horizon]
  omega

end Falters

theorem trickles : reader.Trickles Falters where
  read := by
    intro s ahead k h n
    rcases h.read n with ⟨piece, rest, s', hr, hp, hs'⟩ | interrupted
    · exact .inl ⟨piece, rest, s', k, hr, hp, Nat.le_refl k, hs'⟩
    · exact .inr interrupted
  bound := Falters.bound

/-- The world around a stream does not change what it hands out. -/
theorem source_trickles {T I : Type} :
    (World.source (T := T) (I := I)).stream.Trickles fun t ahead k => t.1.Falters ahead k where
  read := by
    intro t ahead k h n
    obtain ⟨s, w⟩ := t
    rcases h.read n with ⟨piece, rest, s', hr, hp, hs'⟩ | ⟨e, s', fewer, hr, he, hk, hs'⟩
    · refine .inl ⟨piece, rest, (s', w), k, ?_, hp, Nat.le_refl k, hs'⟩
      simp only [World.source, hr]
    · refine .inr ⟨e, (s', w), fewer, ?_, he, hk, hs'⟩
      simp only [World.source, hr]
  bound := Falters.bound

/-- Nothing that stays with the stream for all calls interrupts them. -/
structure Ends (s : Stream) : Prop where
  wall : ∀ offset fault, s.wall = some (offset, fault) → ¬ fault.isInterruption = true
  refrain : ∀ cue ∈ s.refrain, ¬ cue.isInterruption = true

def toCome (s : Stream) : Nat :=
  s.bytes.size - s.position + (s.cues.filter (·.isInterruption)).length

theorem deliver_eq (s : Stream) (n : Nat) : ∃ stop ≤ s.position + n,
    s.deliver n = (.ok (s.bytes.extract s.position stop),
      { s with position := s.position + (s.bytes.extract s.position stop).size }) := by
  unfold Stream.deliver
  split
  · exact ⟨_, Nat.min_le_left _ _, rfl⟩
  · exact ⟨_, Nat.le_refl _, rfl⟩

theorem wall_of_blocked {n : Nat} {fault : Fault} (h : s.blocked n = some fault) :
    ∃ offset, s.wall = some (offset, fault) := by
  unfold blocked at h
  split at h
  · rename_i offset fault' hwall
    split at h
    · cases h
      exact ⟨offset, hwall⟩
    · cases h
  · cases h

namespace Ends

theorem deliver (h : s.Ends) (n : Nat) : ∃ piece t, s.deliver n = (.ok piece, t) ∧
    piece.size ≤ n ∧ t.Ends ∧ piece.size + t.toCome ≤ s.toCome := by
  obtain ⟨stop, hstop, hd⟩ := s.deliver_eq n
  refine ⟨_, _, hd, ?_, ⟨h.wall, h.refrain⟩, ?_⟩
  · rw [ByteArray.size_extract]
    omega
  · simp only [toCome, ByteArray.size_extract]
    omega

/-- A cue that interrupts a call is used up by it. -/
theorem nextCue (h : s.Ends) : s.nextCue.2.Ends ∧
    (s.nextCue.1.any (·.isInterruption)).toNat + s.nextCue.2.toCome ≤ s.toCome := by
  obtain ⟨bytes, position, cues, refrain, wall⟩ := s
  obtain ⟨hwall, hrefrain⟩ := h
  match cues, refrain with
  | cue :: rest, refrain =>
    refine ⟨⟨hwall, hrefrain⟩, ?_⟩
    simp only [Stream.nextCue, toCome, Option.any_some, List.filter_cons]
    cases cue.isInterruption with
    | false => exact Nat.le_of_eq (Nat.zero_add _)
    | true =>
      simp only [if_true, List.length_cons, Bool.toNat_true]
      omega
  | [], cue :: rest =>
    obtain ⟨hcue, hrest⟩ := List.forall_mem_cons.mp hrefrain
    refine ⟨⟨hwall, hrefrain⟩, ?_⟩
    have quiet : rest.filter (·.isInterruption) = [] := List.filter_eq_nil_iff.mpr hrest
    simp only [Stream.nextCue, toCome, Option.any_some, Bool.eq_false_iff.mpr hcue, quiet]
    exact Nat.le_of_eq (Nat.zero_add _)
  | [], [] =>
    refine ⟨⟨hwall, hrefrain⟩, ?_⟩
    simp [Stream.nextCue]

theorem read (h : s.Ends) (n : Nat) : ∃ reply t, s.read n = (reply, t) ∧
    (⟨n, reply⟩ : Intake).bytes.size ≤ n ∧ t.Ends ∧
      (⟨n, reply⟩ : Intake).brought + t.toCome ≤ s.toCome := by
  unfold Stream.read
  split
  · rename_i fault hb
    obtain ⟨offset, hwall⟩ := wall_of_blocked hb
    have quiet : (⟨n, .error fault⟩ : Intake).brought = 0 :=
      Intake.brought_error_eq_zero.mpr (h.wall offset fault hwall)
    refine ⟨_, _, rfl, Nat.zero_le n, h, ?_⟩
    omega
  · obtain ⟨hnext, hle⟩ := h.nextCue
    split
    · rename_i fault s' hcue
      rw [hcue] at hnext hle
      exact ⟨_, _, rfl, Nat.zero_le n, hnext, hle⟩
    · rename_i k s' hcue
      rw [hcue] at hnext hle
      obtain ⟨piece, t, hd, hshort, ht, hpaid⟩ := hnext.deliver (min k n)
      refine ⟨_, t, hd, Nat.le_trans hshort (Nat.min_le_right k n), ht, Nat.le_trans hpaid ?_⟩
      omega
    · rename_i s' hcue
      rw [hcue] at hnext hle
      obtain ⟨piece, t, hd, hshort, ht, hpaid⟩ := hnext.deliver n
      refine ⟨_, t, hd, hshort, ht, Nat.le_trans hpaid ?_⟩
      omega

theorem finite (h : s.Ends) : reader.Finite s := by
  refine .of_potential (fun s k => s.Ends ∧ s.toCome = k) ?_ ?_ ⟨h, rfl⟩
  · intro s k hk call t hr
    obtain ⟨hs, rfl⟩ := hk
    obtain ⟨n, reply⟩ := call
    obtain ⟨reply', t', hr', hshort, ht, hle⟩ := hs.read n
    obtain ⟨rfl, rfl⟩ := Prod.mk.inj (hr'.symm.trans hr)
    exact ⟨hshort, _, ⟨ht, rfl⟩, hle⟩
  · intro s k hk
    obtain ⟨-, rfl⟩ := hk
    change _ ≤ s.horizon
    rw [toCome, horizon]
    omega

end Ends

end ImageCache.Rehearsal.Stream
