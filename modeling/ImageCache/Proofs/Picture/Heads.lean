import ImageCache.Picture.Codec
import ImageCache.Proofs.Reading.Delivery

namespace ImageCache

variable {bytes : ByteArray} {n : Nat}

namespace Format

variable {signature : List (Option UInt8)} {f : Format}

theorem recognise_eq (bytes : ByteArray) :
    recognise bytes = (signatures.find? fun a => begins a.1 bytes).map (·.2) := rfl

theorem begins_iff : begins signature bytes ↔ signature.length ≤ bytes.size ∧
    ∀ i byte, signature[i]? = some (some byte) → Binary.byteAt bytes i = byte := by
  simp only [begins, Bool.and_eq_true, decide_eq_true_eq, List.all_eq_true, Prod.forall,
    List.mem_zipIdx_iff_getElem?, Option.all_eq_true, beq_iff_eq]
  constructor
  · intro h
    exact ⟨h.1, fun i byte hi => (h.2 (some byte) i hi byte rfl).symm⟩
  · intro h
    refine ⟨h.1, fun want i hi byte hw => ?_⟩
    subst hw
    exact (h.2 i byte hi).symm

theorem byteAt_extract {i : Nat} (h : i < n) :
    Binary.byteAt (bytes.extract 0 n) i = Binary.byteAt bytes i := by
  unfold Binary.byteAt
  by_cases hi : i < bytes.size
  · rw [dif_pos hi, dif_pos (by rw [ByteArray.size_extract]; omega), ByteArray.getElem_extract]
    simp only [Nat.zero_add]
  · rw [dif_neg hi, dif_neg (by rw [ByteArray.size_extract]; omega)]

theorem begins_extract : begins signature (bytes.extract 0 n) ↔
    signature.length ≤ n ∧ begins signature bytes := by
  have at_front : ∀ i byte, signature.length ≤ n → signature[i]? = some (some byte) →
      Binary.byteAt (bytes.extract 0 n) i = Binary.byteAt bytes i := by
    intro i byte hn hi
    obtain ⟨hlt, -⟩ := List.getElem?_eq_some_iff.mp hi
    exact byteAt_extract (Nat.lt_of_lt_of_le hlt hn)
  rw [begins_iff, begins_iff, ByteArray.size_extract]
  constructor
  · intro h
    have hn : signature.length ≤ n := by omega
    exact ⟨hn, by omega, fun i byte hi => at_front i byte hn hi ▸ h.2 i byte hi⟩
  · intro h
    obtain ⟨hn, hsize, hbytes⟩ := h
    exact ⟨by omega, fun i byte hi => at_front i byte hn hi ▸ hbytes i byte hi⟩

def conflict (a b : List (Option UInt8)) : Bool :=
  (a.zip b).any fun (x, y) => x.any fun x => y.any fun y => x != y

theorem not_begins_of_conflict {a b : List (Option UInt8)} (h : conflict a b = true)
    (ha : begins a bytes) : ¬ begins b bytes := by
  simp only [conflict, List.any_eq_true, Prod.exists, Option.any_eq_true] at h
  obtain ⟨_, _, hmem, x, rfl, y, rfl, hne⟩ := h
  obtain ⟨i, hi⟩ := List.mem_iff_getElem?.mp hmem
  rw [List.getElem?_zip_eq_some] at hi
  intro hb
  have hx := (begins_iff.mp ha).2 i x hi.1
  have hy := (begins_iff.mp hb).2 i y hi.2
  rw [← hx, ← hy, bne_self_eq_false] at hne
  cases hne

theorem signatures_conflict : ∀ a ∈ signatures, ∀ b ∈ signatures,
    a.2 ≠ b.2 → conflict a.1 b.1 = true := by
  decide +kernel

theorem signatures_short : ∀ a ∈ signatures, a.1.length ≤ signatureLength := by
  decide +kernel

/-- Bytes begin with signatures of one format at most, so that the order in which these are tried
does not matter. -/
theorem recognise_eq_some_iff :
    recognise bytes = some f ↔
      ∃ signature, (signature, f) ∈ signatures ∧ begins signature bytes := by
  rw [recognise_eq, Option.map_eq_some_iff]
  constructor
  · intro h
    obtain ⟨⟨signature, g⟩, hfind, rfl⟩ := h
    have hbegins := List.find?_some hfind
    exact ⟨signature, List.mem_of_find?_eq_some hfind, hbegins⟩
  · intro h
    obtain ⟨signature, hmem, hbegins⟩ := h
    cases hfind : signatures.find? fun a => begins a.1 bytes with
    | none => exact absurd hbegins (List.find?_eq_none.mp hfind _ hmem)
    | some first =>
      have hfirst := List.find?_some hfind
      have hunique : first.2 = f := by
        refine Decidable.byContradiction fun hne => ?_
        have apart := signatures_conflict first (List.mem_of_find?_eq_some hfind) _ hmem hne
        exact not_begins_of_conflict apart hfirst hbegins
      exact ⟨first, rfl, hunique⟩

/-- The first bytes tell the format. -/
theorem recognise_extract (bytes : ByteArray) (h : signatureLength ≤ n) :
    recognise (bytes.extract 0 n) = recognise bytes := by
  refine Option.ext fun f => ?_
  rw [recognise_eq_some_iff, recognise_eq_some_iff]
  refine exists_congr fun signature => and_congr_right fun hmem => ?_
  have hlen := signatures_short _ hmem
  exact begins_extract.trans (and_iff_right (Nat.le_trans hlen h))

/-- Whatever follows, a format that was recognised stays. -/
theorem recognise_of_extract (h : recognise (bytes.extract 0 n) = some f) :
    recognise bytes = some f := by
  obtain ⟨signature, hmem, hbegins⟩ := recognise_eq_some_iff.mp h
  exact recognise_eq_some_iff.mpr ⟨signature, hmem, (begins_extract.mp hbegins).2⟩

end Format

/-- A head that was found is found whatever follows. -/
def Grammar.Lasting (g : Grammar) : Prop :=
  ∀ {bytes : ByteArray} (more : ByteArray) {h : g.Head}, g.head bytes = .ok h →
    g.head (bytes ++ more) = .ok h

theorem Png.lasting : Png.grammar.Lasting := fun more _ h => head.parse_append _ more _ _ h

theorem Gif.lasting : Gif.grammar.Lasting := fun more _ h => head.parse_append _ more _ _ h

theorem Jpeg.lasting : Jpeg.grammar.Lasting := by
  intro bytes more found h
  have hmap : (head.parse bytes ⟨.opening, ⟨none, [], [], []⟩⟩ 0).map (·.1) = .ok found := h
  cases hp : head.parse bytes ⟨.opening, ⟨none, [], [], []⟩⟩ 0 with
  | error e =>
    rw [hp] at hmap
    cases hmap
  | ok result =>
    rw [hp] at hmap
    cases hmap
    exact congrArg (Except.map _) (head.parse_append _ more _ _ hp)

/-- This holds of all formats but the one whose head is looked for up to the end of the file. -/
theorem Format.lasting {f : Format} {g : Grammar} (h : f.grammar = some g) (hf : f ≠ .webp) :
    g.Lasting := by
  cases f with
  | png =>
    cases h
    exact Png.lasting
  | jpeg =>
    cases h
    exact Jpeg.lasting
  | gif =>
    cases h
    exact Gif.lasting
  | webp => exact absurd rfl hf
  | foreign => cases h

namespace Picture

variable {size : Size}

theorem sizeIn_unrecognised (h : Format.recognise bytes = none) :
    sizeIn bytes = .error .unsupported := by
  simp [sizeIn, grammarOf, h]

theorem sizeIn_eq_ok_iff : sizeIn bytes = .ok size ↔ ∃ f g h, Format.recognise bytes = some f ∧
    f.grammar = some g ∧ g.head bytes = .ok h ∧ g.size h = size := by
  constructor
  · intro h
    unfold sizeIn grammarOf at h
    cases hf : Format.recognise bytes with
    | none =>
      rw [hf] at h
      cases h
    | some f =>
      cases hg : f.grammar with
      | none =>
        rw [hf, Option.bind_some, hg] at h
        cases h
      | some g =>
        rw [hf, Option.bind_some, hg] at h
        dsimp only [Grammar.sizeIn] at h
        cases hh : g.head bytes with
        | error e =>
          rw [hh] at h
          cases h
        | ok head =>
          rw [hh] at h
          exact ⟨f, g, head, rfl, hg, hh, Except.ok.inj h⟩
  · intro h
    obtain ⟨f, g, head, hf, hg, hh, rfl⟩ := h
    unfold sizeIn grammarOf
    rw [hf, Option.bind_some, hg]
    exact congrArg (Except.map g.size) hh

/-- Whether a size is found can be told without comparing faults. -/
instance (bytes : ByteArray) (size : Size) : Decidable (sizeIn bytes = .ok size) :=
  match sizeIn bytes with
  | .ok found => decidable_of_iff (found = size) (by rw [Except.ok.injEq])
  | .error _ => .isFalse nofun

/-- A size that shows in the first bytes is that of the whole. -/
def Settled (bytes : ByteArray) : Prop :=
  ∀ n size, sizeIn (bytes.extract 0 n) = .ok size → sizeIn bytes = .ok size

theorem settled_of_fields (h : Format.recognise bytes ≠ some .webp) : Settled bytes := by
  intro n size hs
  obtain ⟨f, g, head, hf, hg, hh, rfl⟩ := sizeIn_eq_ok_iff.mp hs
  replace hf := Format.recognise_of_extract hf
  have lasts := Format.lasting hg (fun hw => h (hw ▸ hf)) (bytes.extract n bytes.size) hh
  rw [← (Piece.front n bytes).split] at lasts
  exact sizeIn_eq_ok_iff.mpr ⟨f, g, head, hf, hg, lasts, rfl⟩

end Picture

end ImageCache
