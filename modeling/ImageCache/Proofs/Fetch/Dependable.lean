import ImageCache.Proofs.Fetch.Verdict
import ImageCache.Proofs.Fetch.WriterLife

namespace ImageCache

open Fetcher

variable {W R Wr S I E : Type}

def IsDiskKey (key : String) : Prop := ∃ identity tag, key = Key.diskKey identity tag

theorem Request.renditionKey_isDiskKey (r : Request) (tag : String) :
    IsDiskKey (r.renditionKey tag) := ⟨r.identityUrl, tag, rfl⟩

theorem Request.fileKey_isDiskKey (r : Request) : IsDiskKey r.fileKey :=
  r.renditionKey_isDiskKey r.sizeTag

/-- What is known of a store in a world. -/
structure StoreView (W R Wr : Type) where
  sound : W → Prop
  entry : W → String → Option ByteArray
  held : W → String → Prop
  /-- The writer is open for this key and was given these bytes so far. -/
  filling : W → Wr → String → ByteArray → Prop
  /-- The open entry has the first bytes as a whole and the second ones ahead. -/
  ahead : ByteArray → R × W → ByteArray → Prop

namespace StoreView

variable {v : StoreView W R Wr} {w w' w'' : W} {key : String} {bytes : ByteArray}

/-- The same entries, and the same keys are held. -/
structure Same (v : StoreView W R Wr) (w w' : W) : Prop where
  sound : v.sound w'
  entry : ∀ key, IsDiskKey key → v.entry w' key = v.entry w key
  held : ∀ key, IsDiskKey key → (v.held w' key ↔ v.held w key)

/-- Open writers and entries go on as they were, too. -/
structure Keeps (v : StoreView W R Wr) (w w' : W) : Prop extends v.Same w w' where
  filling : ∀ writer key bytes, v.filling w writer key bytes → v.filling w' writer key bytes
  ahead : ∀ whole entry bytes, v.ahead whole (entry, w) bytes → v.ahead whole (entry, w') bytes

theorem Same.refl (h : v.sound w) : v.Same w w := ⟨h, fun _ _ => rfl, fun _ _ => Iff.rfl⟩

theorem Same.trans (h : v.Same w w') (h' : v.Same w' w'') : v.Same w w'' :=
  ⟨h'.sound, fun key hk => (h'.entry key hk).trans (h.entry key hk),
    fun key hk => (h'.held key hk).trans (h.held key hk)⟩

theorem Keeps.refl (h : v.sound w) : v.Keeps w w := ⟨.refl h, fun _ _ _ => id, fun _ _ _ => id⟩

theorem Keeps.trans (h : v.Keeps w w') (h' : v.Keeps w' w'') : v.Keeps w w'' :=
  ⟨h.toSame.trans h'.toSame,
    fun writer key bytes hf => h'.filling _ _ _ (h.filling writer key bytes hf),
    fun whole entry bytes ha => h'.ahead _ _ _ (h.ahead whole entry bytes ha)⟩

structure Opened (v : StoreView W R Wr) (key : String) (w w' : W) : Prop where
  sound : v.sound w'
  entry : ∀ other, IsDiskKey other → v.entry w' other = v.entry w other
  held : ∀ other, IsDiskKey other → (v.held w' other ↔ other = key ∨ v.held w other)

/-- A key is free from now on; its entry is this, and the other entries are as they were. -/
structure Closed (v : StoreView W R Wr) (key : String) (entry : Option ByteArray) (w w' : W) :
    Prop where
  sound : v.sound w'
  own : v.entry w' key = entry
  entry : ∀ other, IsDiskKey other → other ≠ key → v.entry w' other = v.entry w other
  held : ∀ other, IsDiskKey other → (v.held w' other ↔ v.held w other ∧ other ≠ key)

variable {w₁ : W} {entry : Option ByteArray}

/-- A key that is opened and closed again is free as before, and only its entry may have changed. -/
theorem Opened.closed (h : v.Opened key w w₁) (h' : v.Closed key entry w₁ w') :
    v.Closed key entry w w' where
  sound := h'.sound
  own := h'.own
  entry other ho hne := (h'.entry other ho hne).trans (h.entry other ho)
  held other ho := by
    rw [h'.held other ho, h.held other ho]
    refine and_congr_left fun hne => ?_
    simp [hne]

theorem Opened.same (h : v.Opened key w w₁) (h' : v.Same w₁ w') : v.Opened key w w' where
  sound := h'.sound
  entry other ho := (h'.entry other ho).trans (h.entry other ho)
  held other ho := (h'.held other ho).trans (h.held other ho)

theorem Same.opened (h : v.Same w w₁) (h' : v.Opened key w₁ w') : v.Opened key w w' where
  sound := h'.sound
  entry other ho := (h'.entry other ho).trans (h.entry other ho)
  held other ho := by rw [h'.held other ho, h.held other ho]

theorem Closed.same (h : v.Closed key entry w w₁) (hk : IsDiskKey key) (h' : v.Same w₁ w') :
    v.Closed key entry w w' where
  sound := h'.sound
  own := (h'.entry key hk).trans h.own
  entry other ho hne := (h'.entry other ho).trans (h.entry other ho hne)
  held other ho := (h'.held other ho).trans (h.held other ho)

theorem Same.closed (h : v.Same w w₁) (h' : v.Closed key entry w₁ w') :
    v.Closed key entry w w' where
  sound := h'.sound
  own := h'.own
  entry other ho hne := (h'.entry other ho hne).trans (h.entry other ho)
  held other ho := by rw [h'.held other ho, h.held other ho]

/-- A free key that is closed with the entry that it had is as it was. -/
theorem Closed.unchanged (h : v.Closed key (v.entry w key) w w') (free : ¬ v.held w key) :
    v.Same w w' where
  sound := h.sound
  entry other ho := by
    by_cases he : other = key
    · rw [he, h.own]
    · exact h.entry other ho he
  held other ho := by
    rw [h.held other ho]
    refine ⟨fun hh => hh.1, fun hh => ⟨hh, ?_⟩⟩
    rintro rfl
    exact free hh

end StoreView

/-- What the sink of a dependable store says: it takes some of the bytes offered, if there are any,
and never fails. -/
def Exchange.Smooth : Exchange → Prop
  | ⟨.write bytes, reply⟩ => ∃ n, reply = .ok n ∧ n ≤ bytes.size ∧ (0 < bytes.size → 0 < n)
  | ⟨.flush, reply⟩ => reply = .ok ()
  | ⟨.horizon, _⟩ => True

/-- The store of the fetcher does to the view what it is asked to, and the rest of what the fetcher
works with leaves the view alone. -/
structure Dependable (f : Fetcher W R Wr S I E) (v : StoreView W R Wr) : Prop where
  quiet : ∀ {w w' : W} {deed : Deed R Wr S I}, v.sound w → deed.handlesWriter = false →
    f.Does w deed w' → v.Keeps w w'
  missing : ∀ {w w' : W} {key : String} {reply : Except Fault (Option R)}, v.sound w →
    IsDiskKey key → f.Does w (.read key reply) w' → v.entry w key = none → reply = .ok none
  found : ∀ {w w' : W} {key : String} {bytes : ByteArray} {reply : Except Fault (Option R)},
    v.sound w → IsDiskKey key → f.Does w (.read key reply) w' → v.entry w key = some bytes →
      ∃ entry, reply = .ok (some entry) ∧ v.ahead bytes (entry, w') bytes
  replays : ∀ whole,
    f.store.entry.Replays whole fun s ahead => v.sound s.2 ∧ v.ahead whole s ahead
  refused : ∀ {w w' : W} {key : String} {reply : Except Fault (Option Wr)}, v.sound w →
    IsDiskKey key → f.Does w (.stage key reply) w' → v.held w key →
      reply = .ok none ∧ v.Same w w'
  opened : ∀ {w w' : W} {key : String} {reply : Except Fault (Option Wr)}, v.sound w →
    IsDiskKey key → f.Does w (.stage key reply) w' → ¬ v.held w key →
      ∃ writer, reply = .ok (some writer) ∧ v.filling w' writer key .empty ∧ v.Opened key w w'
  offer : ∀ {w w' : W} {key : String} {bytes more : ByteArray} {writer next : Wr}
    {reply : Except Fault Nat}, v.sound w → v.filling w writer key bytes →
      f.Does w (.offer writer more reply next) w' →
        Exchange.Smooth ⟨.write more, reply⟩ ∧ v.Same w w' ∧
          v.filling w' next key (bytes ++ Exchange.taken ⟨.write more, reply⟩)
  flush : ∀ {w w' : W} {key : String} {bytes : ByteArray} {writer next : Wr}
    {reply : Except Fault Unit}, v.sound w → v.filling w writer key bytes →
      f.Does w (.flush writer reply next) w' →
        reply = .ok () ∧ v.Same w w' ∧ v.filling w' next key bytes
  commit : ∀ {w w' : W} {key : String} {bytes : ByteArray} {writer : Wr}
    {reply : Except Fault Unit}, v.sound w → IsDiskKey key → v.filling w writer key bytes →
      f.Does w (.commit writer reply) w' → reply = .ok () ∧ v.Closed key (some bytes) w w'
  abort : ∀ {w w' : W} {key : String} {bytes : ByteArray} {writer : Wr}
    {reply : Except Fault Unit}, v.sound w → IsDiskKey key → v.filling w writer key bytes →
      f.Does w (.abort writer reply) w' → reply = .ok () ∧ v.Closed key (v.entry w key) w w'

namespace Dependable

variable {f : Fetcher W R Wr S I E} {v : StoreView W R Wr} {w w' : W}

theorem leads_quiet (h : Dependable f v) (hs : v.sound w) {deeds : List (Deed R Wr S I)}
    (hd : ∀ deed ∈ deeds, deed.handlesWriter = false) (leads : f.Leads w deeds w') :
    v.Keeps w w' :=
  leads_keeps (fun deed hm _ _ keeps does => keeps.trans (h.quiet keeps.sound (hd deed hm) does))
    (.refl hs) leads

/-- A writer is given bytes: it takes them all in order, and the view stays as it is. -/
theorem conveys (h : Dependable f v) {writer last : Wr} {talk : Talk}
    {deeds : List (Deed R Wr S I)} {key : String} {bytes : ByteArray}
    (conveys : Conveys writer talk deeds last) (leads : f.Leads w deeds w') (hs : v.sound w)
    (hf : v.filling w writer key bytes) :
    (∀ said ∈ talk, said.Smooth) ∧ v.Same w w' ∧
      v.filling w' last key (bytes ++ talk.accepted) := by
  -- The induction goes along the talk; the bytes that the writer has by then grow with it.
  induction conveys generalizing w bytes with
  | nil writer =>
    obtain rfl : w = w' := leads
    refine ⟨by simp, .refl hs, ?_⟩
    rw [Talk.accepted, List.foldr_nil, ByteArray.append_empty]
    exact hf
  | @cons writer next last said talk deeds more first rest ih =>
    obtain ⟨between, hl, hm⟩ := leads_append.mp leads
    have step : said.Smooth ∧ v.Same w between ∧
        v.filling between next key (bytes ++ said.taken) := by
      cases first with
      | write more reply => exact h.offer hs hf (leads_single.mp hl)
      | flush reply =>
        obtain ⟨hr, same, hf'⟩ := h.flush hs hf (leads_single.mp hl)
        exact ⟨hr, same, ByteArray.append_empty.symm ▸ hf'⟩
      | horizon n =>
        obtain rfl : w = between := hl
        exact ⟨trivial, .refl hs, ByteArray.append_empty.symm ▸ hf⟩
    obtain ⟨smooth, same, hf'⟩ := step
    obtain ⟨smooth', same', hf''⟩ := ih hm same.sound hf'
    refine ⟨List.forall_mem_cons.mpr ⟨smooth, smooth'⟩, same.trans same', ?_⟩
    rwa [ByteArray.append_assoc] at hf''

end Dependable

end ImageCache
