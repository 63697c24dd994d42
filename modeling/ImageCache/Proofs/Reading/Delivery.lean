import ImageCache.Reading.Drain
import ImageCache.Reading.Supply

namespace ImageCache

variable {σ α β : Type}

/-- What may be handed out of the bytes ahead when `n` are asked for: a piece from the front, which
is empty only where nothing is asked for or nothing is left. -/
structure Piece (n : Nat) (ahead piece rest : ByteArray) : Prop where
  split : ahead = piece ++ rest
  short : piece.size ≤ n
  full : 0 < n → 0 < ahead.size → 0 < piece.size

theorem extract_whole {bytes : ByteArray} {n : Nat} (h : bytes.size ≤ n) :
    bytes.extract 0 n = bytes := by
  rw [← Nat.max_eq_left h, ByteArray.extract_zero_max_size]

theorem extract_past {bytes : ByteArray} {i j : Nat} (h : bytes.size ≤ i) :
    bytes.extract i j = .empty := by
  rw [ByteArray.extract_eq_empty_iff]
  omega

theorem extract_within (bytes : ByteArray) (i n : Nat) :
    bytes.extract i (min n bytes.size) = bytes.extract i n := by
  refine ByteArray.ext_getElem ?_ fun k hk hk' => ?_
  · simp only [ByteArray.size_extract]
    omega
  · rw [ByteArray.getElem_extract, ByteArray.getElem_extract]

theorem extract_from (bytes : ByteArray) (position n : Nat) :
    bytes.extract position (position + n) = (bytes.extract position bytes.size).extract 0 n := by
  rw [ByteArray.extract_extract, Nat.add_zero]
  refine ByteArray.ext_getElem ?_ fun k hk hk' => ?_
  · simp only [ByteArray.size_extract]
    omega
  · rw [ByteArray.getElem_extract, ByteArray.getElem_extract]

theorem extract_front (bytes : ByteArray) {n m : Nat} (h : n ≤ m) :
    (bytes.extract 0 m).extract 0 n = bytes.extract 0 n := by
  rw [ByteArray.extract_extract, Nat.zero_add, Nat.zero_add, Nat.min_eq_left h]

theorem extract_on (bytes : ByteArray) (i n : Nat) :
    bytes.extract 0 i ++ (bytes.extract i bytes.size).extract 0 n = bytes.extract 0 (i + n) := by
  rw [← extract_from, ByteArray.extract_append_extract, Nat.zero_min,
    Nat.max_eq_right (Nat.le_add_right i n)]

theorem extract_rest (bytes : ByteArray) (i n : Nat) :
    (bytes.extract i bytes.size).extract n (bytes.extract i bytes.size).size =
      bytes.extract (i + n) bytes.size := by
  have hend : min (i + (bytes.extract i bytes.size).size) bytes.size = bytes.size := by
    rw [ByteArray.size_extract]
    omega
  rw [ByteArray.extract_extract, hend]

/-- Where the position has moved behind what was read, there is the rest. -/
theorem extract_behind (bytes : ByteArray) (position n : Nat) :
    bytes.extract (position + (bytes.extract position (position + n)).size) bytes.size =
      (bytes.extract position bytes.size).extract n (bytes.extract position bytes.size).size := by
  rw [extract_rest, ByteArray.extract_eq_extract_left, ByteArray.size_extract]
  omega

namespace Piece

variable {n : Nat} {ahead piece rest : ByteArray}

theorem size (h : Piece n ahead piece rest) : ahead.size = piece.size + rest.size := by
  rw [h.split, ByteArray.size_append]

/-- As much as was asked for, if there is so much. -/
theorem front (n : Nat) (ahead : ByteArray) :
    Piece n ahead (ahead.extract 0 n) (ahead.extract n ahead.size) where
  split := by
    rw [ByteArray.extract_append_extract, Nat.zero_min, ByteArray.extract_zero_max_size]
  short := by
    rw [ByteArray.size_extract]
    omega
  full hn ha := by
    rw [ByteArray.size_extract]
    omega

/-- Of bytes in two parts only the first is handed out, if it has any. -/
theorem front_append (n : Nat) {first : ByteArray} (h : 0 < first.size) (second : ByteArray) :
    Piece n (first ++ second) (first.extract 0 n) (first.extract n first.size ++ second) where
  split := by rw [← ByteArray.append_assoc, ← (front n first).split]
  short := (front n first).short
  full hn _ := (front n first).full hn h

/-- Where a piece is empty although something was asked for, nothing is left. -/
theorem ended (h : Piece n ahead piece rest) (hn : 0 < n) (hp : piece.size = 0) :
    ahead = .empty := by
  refine ByteArray.size_eq_zero_iff.mp (Nat.eq_zero_of_not_pos fun ha => ?_)
  exact Nat.ne_of_gt (h.full hn ha) hp

theorem mono {m : Nat} (h : Piece m ahead piece rest) (hm : m ≤ n) (hpos : 0 < n → 0 < m) :
    Piece n ahead piece rest :=
  ⟨h.split, Nat.le_trans h.short hm, fun hn => h.full (hpos hn)⟩

theorem rest_empty (h : Piece n .empty piece rest) : rest = .empty :=
  (ByteArray.append_eq_empty_iff.mp h.split.symm).2

theorem extract_front (h : Piece n ahead piece rest) {m : Nat} (hm : piece.size ≤ m) :
    ahead.extract 0 m = piece ++ rest.extract 0 (m - piece.size) := by
  rw [h.split, ByteArray.extract_append, extract_whole hm, Nat.zero_sub]

theorem extract_back (h : Piece n ahead piece rest) {m : Nat} (hm : piece.size ≤ m) :
    ahead.extract m ahead.size = rest.extract (m - piece.size) rest.size := by
  rw [h.size, h.split, ByteArray.extract_append, extract_past hm, ByteArray.empty_append,
    Nat.add_sub_cancel_left]

end Piece

/-- The relation tells for states of the reader which bytes lie ahead: reads hand out just these, in
pieces, and never fail. -/
structure Reader.Delivers (r : Reader σ) (has : σ → ByteArray → Prop) : Prop where
  read : ∀ {s ahead}, has s ahead → ∀ n, ∃ piece rest s',
    r.read n s = (.ok piece, s') ∧ Piece n ahead piece rest ∧ has s' rest
  bound : ∀ {s ahead}, has s ahead → ahead.size ≤ r.horizon s

/-- The same of a reader that can start over, which always leads back to the whole. -/
structure SeekableReader.Replays (r : SeekableReader σ) (whole : ByteArray)
    (has : σ → ByteArray → Prop) : Prop extends Reader.Delivers r.toReader has where
  rewind : ∀ {s ahead}, has s ahead → ∃ s', r.rewind s = (.ok (), s') ∧ has s' whole

namespace Reader

variable (r : Reader σ)

theorem run_bind (p : Reading α) (next : α → Reading β) (s : σ) :
    r.run (p >>= next) s = r.run (next (r.run p s).1) (r.run p s).2 :=
  Dialogue.run_bind r.answer p next s

theorem run_upTo (n : Nat) (s : σ) : r.run (Reading.upTo n) s = r.read n s := rfl

theorem run_horizon (s : σ) : r.run Reading.horizon s = (r.horizon s, s) := rfl

end Reader

namespace Reader.Delivers

variable {r : Reader σ} {has : σ → ByteArray → Prop} {s : σ} {ahead : ByteArray}

theorem run (h : r.Delivers has) (p : Reading α) (hs : has s ahead) :
    ∃ rest, has (r.run p s).2 rest := by
  induction p generalizing s ahead with
  | done a => exact ⟨ahead, hs⟩
  | ask q next ih =>
    cases q with
    | upTo n =>
      obtain ⟨piece, rest, s', hr, -, hs'⟩ := h.read hs n
      rw [Reader.run, Dialogue.run_ask, show r.answer (.upTo n) s = _ from hr]
      exact ih _ hs'
    | horizon => exact ih _ hs

theorem gather (h : r.Delivers has) {fuel : Nat} (n : Nat) (got : ByteArray) (hs : has s ahead)
    (hf : ahead.size < fuel) :
    ∃ s', r.run (Reading.gather fuel n got) s =
        (if n ≤ ahead.size then .ok (got ++ ahead.extract 0 n) else .error .shortRead, s') ∧
      has s' (ahead.extract n ahead.size) := by
  -- A piece that is not empty takes as much from what lies ahead as from what is still to come.
  induction fuel generalizing n got s ahead with
  | zero => exact absurd hf (Nat.not_lt_zero _)
  | succ fuel ih =>
    rw [Reading.gather]
    split
    · rename_i hn
      refine ⟨s, ?_, ?_⟩
      · rw [hn, if_pos (Nat.zero_le _), ByteArray.extract_same, ByteArray.append_empty]
        rfl
      · rwa [hn, ByteArray.extract_zero_size]
    · rename_i hn
      obtain ⟨piece, rest, s', hr, hp, hs'⟩ := h.read hs n
      rw [run_bind, run_upTo, hr]
      dsimp only
      split
      · rename_i hz
        obtain rfl := hp.ended (Nat.pos_of_ne_zero hn) hz
        obtain rfl := hp.rest_empty
        refine ⟨s', ?_, by rwa [extract_past (Nat.zero_le n)]⟩
        rw [if_neg (by simpa using hn)]
        rfl
      · rename_i hz
        have hsize := hp.size
        have hshort := hp.short
        obtain ⟨s'', hg, hs''⟩ := ih (n - piece.size) (got ++ piece) hs' (by omega)
        rw [← hp.extract_back hshort] at hs''
        rw [ByteArray.append_assoc, ← hp.extract_front hshort] at hg
        refine ⟨s'', hg.trans ?_, hs''⟩
        have hle : n - piece.size ≤ rest.size ↔ n ≤ ahead.size := by omega
        simp only [hle]

/-- So many bytes come, or it is a fault that there are not so many. -/
theorem exactly (h : r.Delivers has) (n : Nat) (hs : has s ahead) :
    ∃ s', r.run (Reading.exactly n) s =
        (if n ≤ ahead.size then .ok (ahead.extract 0 n) else .error .shortRead, s') ∧
      has s' (ahead.extract n ahead.size) := by
  rw [Reading.exactly, run_bind, run_horizon]
  obtain ⟨s', hg, hs'⟩ := h.gather n .empty hs (Nat.lt_succ_of_le (h.bound hs))
  rw [ByteArray.empty_append] at hg
  exact ⟨s', hg, hs'⟩

end Reader.Delivers

/-- Whatever is read, there are always some bytes ahead of which it is known that starting over
leads back to all of them. -/
theorem SeekableReader.Replays.run {r : SeekableReader σ} {whole : ByteArray}
    {has : σ → ByteArray → Prop} (h : r.Replays whole has) (p : SeekReading α) {s : σ}
    {ahead : ByteArray} (hs : has s ahead) : ∃ rest, has (r.run p s).2 rest := by
  induction p generalizing s ahead with
  | done a => exact ⟨ahead, hs⟩
  | ask q next ih =>
    match q with
    | .plain (.upTo n) =>
      obtain ⟨piece, rest, s', hr, -, hs'⟩ := h.read hs n
      rw [SeekableReader.run, Dialogue.run_ask, show r.answer (.plain (.upTo n)) s = _ from hr]
      exact ih _ hs'
    | .plain .horizon => exact ih _ hs
    | .rewind =>
      obtain ⟨s', hr, hs'⟩ := h.rewind hs
      rw [SeekableReader.run, Dialogue.run_ask, show r.answer .rewind s = _ from hr]
      exact ih _ hs'

namespace Buffer

theorem reserve_bytes (b : Buffer) (extra : Nat) : (b.reserve extra).bytes = b.bytes := by
  rw [reserve]
  split <;> rfl

theorem append_bytes (b : Buffer) (more : ByteArray) : (b.append more).bytes = b.bytes ++ more := by
  rw [append, reserve_bytes]

theorem spare_reserve (b : Buffer) (extra : Nat) : extra ≤ (b.reserve extra).spare := by
  rw [spare, reserve_bytes, reserve]
  split
  · dsimp only
    omega
  · omega

end Buffer

namespace Drain

theorem prepared_bytes (d : Drain) : d.prepared.buffer.bytes = d.buffer.bytes := by
  rw [prepared]
  split
  · rfl
  · exact d.buffer.reserve_bytes probeSize

theorem prepared_left (d : Drain) : d.prepared.left = d.left := by
  rw [prepared]
  split <;> rfl

theorem prepared_largest (d : Drain) : d.prepared.largest = d.largest := by
  rw [prepared]
  split <;> rfl

theorem prepared_room (d : Drain) (h : 0 < d.largest) : 0 < d.prepared.room := by
  have hspare : d.prepared.probes = false → 0 < d.prepared.buffer.spare := by
    intro hp
    rw [prepared] at hp ⊢
    split at hp
    · rename_i hd
      rw [if_pos hd]
      rw [hp, Bool.false_or, bne_iff_ne] at hd
      exact Nat.pos_of_ne_zero hd
    · rename_i hd
      rw [if_neg hd]
      exact Nat.lt_of_lt_of_le (by decide) (d.buffer.spare_reserve probeSize)
  rw [room]
  split
  · decide
  · rename_i hp
    have hs := hspare (by simpa using hp)
    rw [prepared_largest]
    omega

theorem accept_largest (d : Drain) (bytes : ByteArray) (h : 0 < d.largest) :
    0 < (d.accept bytes).largest := by
  simp only [accept]
  split <;> omega

end Drain

/-- The same of a reader whose calls may be interrupted. So many interruptions are still to come at
most, and bytes lie ahead after one as before. -/
structure Reader.Trickles (r : Reader σ) (has : σ → ByteArray → Nat → Prop) : Prop where
  read : ∀ {s ahead k}, has s ahead k → ∀ n,
    (∃ piece rest s' k', r.read n s = (.ok piece, s') ∧ Piece n ahead piece rest ∧ k' ≤ k ∧
      has s' rest k') ∨
    ∃ e s' k', r.read n s = (.error e, s') ∧ e.isInterruption = true ∧ k' < k ∧ has s' ahead k'
  bound : ∀ {s ahead k}, has s ahead k → ahead.size + k ≤ r.horizon s

namespace Reader.Trickles

variable {r : Reader σ} {has : σ → ByteArray → Nat → Prop} {s : σ} {ahead : ByteArray} {k : Nat}

theorem loop (h : r.Trickles has) {fuel : Nat} {d : Drain} (hd : 0 < d.largest)
    (hs : has s ahead k) (hf : ahead.size + k < fuel) :
    ∃ buffer s' k', r.run (Drain.loop fuel d) s = (.ok buffer, s') ∧
      buffer.bytes = d.buffer.bytes ++ ahead.extract 0 (d.left.getD ahead.size) ∧ k' ≤ k ∧
      has s' (ahead.extract (d.left.getD ahead.size) ahead.size) k' := by
  -- Every call takes a byte or an interruption off what is still to come.
  induction fuel generalizing d s ahead k with
  | zero => exact absurd hf (Nat.not_lt_zero _)
  | succ fuel ih =>
    rw [Drain.loop]
    split
    · rename_i hz
      rw [d.prepared_left] at hz
      rw [hz, Option.getD_some, ByteArray.extract_same, ByteArray.append_empty,
        ByteArray.extract_zero_size]
      exact ⟨_, s, k, rfl, d.prepared_bytes, Nat.le_refl k, hs⟩
    · rename_i hz
      rw [d.prepared_left] at hz
      have hlargest : 0 < d.prepared.largest := d.prepared_largest ▸ hd
      -- Without room an empty piece would not say that nothing is left.
      have hroom := d.prepared_room hd
      have hrequest : 0 < d.prepared.request := by
        rw [Drain.request, d.prepared_left]
        split
        · exact hroom
        · rename_i n hn
          have hne : n ≠ 0 := fun he => hz (hn.trans (congrArg some he))
          exact Nat.lt_min.mpr ⟨hroom, Nat.pos_of_ne_zero hne⟩
      rcases h.read hs d.prepared.request with ⟨piece, rest, s', k', hr, hp, hk, hs'⟩ |
        ⟨e, s', k', hr, he, hk, hs'⟩
      · rw [run_bind, run_upTo, hr]
        dsimp only
        split
        · rename_i hempty
          obtain rfl := hp.ended hrequest hempty
          obtain rfl := hp.rest_empty
          refine ⟨_, s', k', rfl, ?_, hk, ?_⟩
          · rw [extract_past (Nat.zero_le 0), ByteArray.append_empty, d.prepared_bytes]
          · rwa [extract_past (Nat.zero_le _)]
        · rename_i hne
          have hsize := hp.size
          have hshort : piece.size ≤ d.left.getD ahead.size := by
            cases hl : d.left with
            | none =>
              rw [Option.getD_none]
              omega
            | some n =>
              have hle := hp.short
              rw [Drain.request, d.prepared_left, hl] at hle
              exact Nat.le_trans hle (Nat.min_le_right _ n)
          have hleft : (d.prepared.accept piece).left.getD rest.size =
              d.left.getD ahead.size - piece.size := by
            rw [Drain.accept, d.prepared_left]
            cases d.left with
            | none =>
              rw [Option.map_none, Option.getD_none, Option.getD_none]
              omega
            | some n => rfl
          obtain ⟨buffer, s'', k'', hg, hb, hk', hs''⟩ := ih (d := d.prepared.accept piece)
            (d.prepared.accept_largest piece hlargest) hs' (by omega)
          rw [hleft] at hb hs''
          rw [← hp.extract_back hshort] at hs''
          refine ⟨buffer, s'', k'', hg, ?_, Nat.le_trans hk' hk, hs''⟩
          rw [hb, Drain.accept, Buffer.append_bytes, d.prepared_bytes, ByteArray.append_assoc,
            ← hp.extract_front hshort]
      · rw [run_bind, run_upTo, hr]
        dsimp only
        rw [if_pos he]
        obtain ⟨buffer, s'', k'', hg, hb, hk', hs''⟩ := ih (d := d.prepared) hlargest hs' (by omega)
        rw [d.prepared_left] at hb hs''
        rw [d.prepared_bytes] at hb
        exact ⟨buffer, s'', k'', hg, hb, Nat.le_of_lt (Nat.lt_of_le_of_lt hk' hk), hs''⟩

/-- All bytes come that lie ahead, or as many as may be taken. -/
theorem drain (h : r.Trickles has) (b : Buffer) (left : Option Nat) (hs : has s ahead k) :
    ∃ more s' k', r.run (Reading.drain b left) s = (.ok more, s') ∧
      more.bytes = b.bytes ++ ahead.extract 0 (left.getD ahead.size) ∧ k' ≤ k ∧
      has s' (ahead.extract (left.getD ahead.size) ahead.size) k' := by
  rw [Reading.drain, run_bind, run_horizon]
  exact h.loop (d := Drain.start b left) (Nat.lt_of_sub_eq_succ rfl) hs
    (Nat.lt_succ_of_le (h.bound hs))

theorem supply_loop (h : r.Trickles has) {fuel : Nat} (got : ByteArray) (hs : has s ahead k)
    (hf : ahead.size + k < fuel) :
    (r.run (Supply.loop fuel got) s).1 = ⟨got ++ ahead, none⟩ := by
  induction fuel generalizing got s ahead k with
  | zero => exact absurd hf (Nat.not_lt_zero _)
  | succ fuel ih =>
    rw [Supply.loop, run_bind, run_upTo]
    rcases h.read hs Supply.portion with ⟨piece, rest, s', k', hr, hp, hk, hs'⟩ |
      ⟨e, s', k', hr, he, hk, hs'⟩
    · rw [hr]
      dsimp only
      split
      · rename_i hempty
        obtain rfl := hp.ended (Nat.lt_of_sub_eq_succ rfl) hempty
        rw [ByteArray.append_empty]
        rfl
      · rename_i hne
        have hsize := hp.size
        rw [ih (got ++ piece) hs' (by omega), ByteArray.append_assoc, ← hp.split]
    · rw [hr]
      dsimp only
      rw [if_pos he]
      exact ih got hs' (by omega)

theorem supply (h : r.Trickles has) (hs : has s ahead k) :
    (r.run Reading.supply s).1 = ⟨ahead, none⟩ := by
  rw [Reading.supply, run_bind, run_horizon,
    h.supply_loop .empty hs (Nat.lt_succ_of_le (h.bound hs)), ByteArray.empty_append]

end Reader.Trickles

namespace Reader.Delivers

variable {r : Reader σ} {has : σ → ByteArray → Prop} {s : σ} {ahead : ByteArray}

/-- A reader that never fails is never interrupted. -/
theorem trickles (h : r.Delivers has) : r.Trickles fun s ahead k => has s ahead ∧ k = 0 where
  read := by
    intro s ahead k hs n
    obtain ⟨hs, rfl⟩ := hs
    obtain ⟨piece, rest, s', hr, hp, hs'⟩ := h.read hs n
    exact .inl ⟨piece, rest, s', 0, hr, hp, Nat.le_refl 0, hs', rfl⟩
  bound := by
    intro s ahead k hs
    obtain ⟨hs, rfl⟩ := hs
    exact h.bound hs

theorem drain (h : r.Delivers has) (b : Buffer) (left : Option Nat) (hs : has s ahead) :
    ∃ more s', r.run (Reading.drain b left) s = (.ok more, s') ∧
      more.bytes = b.bytes ++ ahead.extract 0 (left.getD ahead.size) ∧
      has s' (ahead.extract (left.getD ahead.size) ahead.size) := by
  obtain ⟨more, s', -, hr, hb, -, hs', -⟩ := h.trickles.drain b left ⟨hs, rfl⟩
  exact ⟨more, s', hr, hb, hs'⟩

/-- All bytes come that lie ahead. -/
theorem toEnd (h : r.Delivers has) (hs : has s ahead) :
    ∃ s', r.run Reading.toEnd s = (.ok ahead, s') ∧ has s' .empty := by
  obtain ⟨buffer, s', hr, hb, hs'⟩ := h.drain .empty none hs
  have hb : buffer.bytes = ahead := by
    rw [hb, Option.getD_none, ByteArray.extract_zero_size]
    exact ByteArray.empty_append
  rw [Option.getD_none, ByteArray.extract_same] at hs'
  refine ⟨s', ?_, hs'⟩
  rw [Reading.toEnd, run_bind, hr, ← hb]
  rfl

end Reader.Delivers

end ImageCache
