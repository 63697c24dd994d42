import ImageCache.Proofs.Keys
import ImageCache.Request
import Mathlib.Data.List.Induction

namespace ImageCache.Request

inductive Field where
  | identityUrl
  | remoteUrl
  | sizeTag
  | identityKey
  | reuse
deriving DecidableEq, Repr

@[reducible] def Field.Value : Field → Type
  | identityUrl => String
  | remoteUrl => String
  | sizeTag => String
  | identityKey => String
  | reuse => List String

structure Setting where
  field : Field
  value : field.Value

def Setting.given? (s : Setting) (f : Field) : Option f.Value :=
  if h : s.field = f then some (h ▸ s.value) else none

def set (r : Request) : Setting → Request
  | ⟨.identityUrl, url⟩ => r.withIdentityUrl url
  | ⟨.remoteUrl, url⟩ => r.withRemoteUrl url
  | ⟨.sizeTag, tag⟩ => r.withSizeTag tag
  | ⟨.identityKey, key⟩ => r.withIdentityKey key
  | ⟨.reuse, tags⟩ => r.withReuse tags

/-- What a request has in a field. Two of the fields may be empty. -/
def get? (r : Request) : (f : Field) → Option f.Value
  | .identityUrl => some r.identityUrl
  | .remoteUrl => some r.remoteUrl
  | .sizeTag => some r.sizeTag
  | .identityKey => r.identityKey?
  | .reuse => r.reuse?

/-- A request for the image at `url`, with these settings made one after the other. -/
def made (url : String) (target : Size) (settings : List Setting) : Request :=
  settings.foldl set (ofUrl url target)

def last? (settings : List Setting) (f : Field) : Option f.Value :=
  settings.reverse.findSome? (·.given? f)

section Settings

variable {url : String} {target : Size} {settings : List Setting}

theorem given?_other {s : Setting} {f : Field} (h : f ≠ s.field) : s.given? f = none :=
  dif_neg h.symm

theorem get?_set (r : Request) (s : Setting) (f : Field) :
    (r.set s).get? f = (s.given? f).or (r.get? f) := by
  obtain ⟨field, value⟩ := s
  cases field <;> cases f <;> rfl

theorem last?_concat (settings : List Setting) (s : Setting) (f : Field) :
    last? (settings ++ [s]) f = (s.given? f).or (last? settings f) := by
  simp only [last?, List.reverse_append, List.reverse_singleton, List.singleton_append,
    List.findSome?_cons]
  cases s.given? f <;> rfl

theorem made_concat (url : String) (target : Size) (settings : List Setting) (s : Setting) :
    made url target (settings ++ [s]) = (made url target settings).set s := by
  simp [made]

/-- Settings of different fields may change places. -/
theorem set_comm (r : Request) {s t : Setting} (h : s.field ≠ t.field) :
    (r.set s).set t = (r.set t).set s := by
  obtain ⟨field, value⟩ := s
  obtain ⟨other, value'⟩ := t
  cases field <;> cases other <;> first | rfl | exact absurd rfl h

theorem made_swap (url : String) (target : Size) (before after : List Setting) {s t : Setting}
    (h : s.field ≠ t.field) :
    made url target (before ++ t :: s :: after) = made url target (before ++ s :: t :: after) := by
  simp only [made, List.foldl_append, List.foldl_cons]
  rw [set_comm _ h]

/-- A field has what it was given last, or what it had from the start. -/
theorem get?_made (url : String) (target : Size) (settings : List Setting) (f : Field) :
    (made url target settings).get? f = (last? settings f).or ((ofUrl url target).get? f) := by
  induction settings using List.reverseRecOn with
  | nil => rfl
  | append_singleton settings s ih =>
    rw [made_concat, get?_set, ih, last?_concat, Option.or_assoc]

/-- What no setting is about stays as it was. -/
theorem made_rest (url : String) (target : Size) (settings : List Setting) :
    (made url target settings).originUrl = url ∧ (made url target settings).target = target ∧
      (made url target settings).originSize? = none := by
  induction settings using List.reverseRecOn with
  | nil => exact ⟨rfl, rfl, rfl⟩
  | append_singleton settings s ih =>
    rw [made_concat]
    obtain ⟨field, value⟩ := s
    cases field <;> exact ih

theorem identityUrl_made (url : String) (target : Size) (settings : List Setting) :
    (made url target settings).identityUrl = (last? settings .identityUrl).getD url := by
  have hget := get?_made url target settings .identityUrl
  rw [show (ofUrl url target).get? .identityUrl = some url from rfl, Option.or_some] at hget
  exact Option.some.inj hget

theorem identityKey?_made (url : String) (target : Size) (settings : List Setting) :
    (made url target settings).identityKey? = last? settings .identityKey :=
  (get?_made url target settings .identityKey).trans Option.or_none

end Settings

section Keys

variable {p q : Request}

/-- Only what stands between the blanks of an identity makes a key. -/
theorem renditionKey_congr
    (identity : Key.normalize p.identityUrl = Key.normalize q.identityUrl) (tag : String) :
    p.renditionKey tag = q.renditionKey tag := by
  simp only [renditionKey, Key.diskKey, Key.preimage, identity]

theorem identityKey_congr (identity : Key.normalize p.identityUrl = Key.normalize q.identityUrl)
    (replaced : p.identityKey? = q.identityKey?) : p.identityKey = q.identityKey := by
  simp only [identityKey, Key.identityKey, identity, replaced]

/-- Identity and tag make the key of a request, and nothing else does unless hashes collide. -/
theorem fileKey_eq_iff (hp : Key.Counted p.identityUrl) (hq : Key.Counted q.identityUrl) :
    p.fileKey = q.fileKey ↔
      (Key.normalize p.identityUrl = Key.normalize q.identityUrl ∧ p.sizeTag = q.sizeTag) ∨
        Hash.Sha256.Collide (Key.preimage p.identityUrl p.sizeTag)
          (Key.preimage q.identityUrl q.sizeTag) := by
  have hashed := Key.preimage_inj hp hq p.sizeTag q.sizeTag
  rw [fileKey, fileKey, renditionKey, renditionKey, Key.diskKey_inj, Hash.Sha256.Collide, ← hashed]
  constructor
  · intro h
    exact (Classical.em _).imp_right fun hne => ⟨hne, h⟩
  · intro h
    rcases h with he | ⟨-, h⟩
    · rw [he]
    · exact h

end Keys

/-- The settings made of a request decide each of its fields: the last of a field counts, those of
other fields do not, and all else is as it was from the start. So settings of different fields may
change places. The key in the memory tier is the replacement that was set last, or else the identity
that was, without the blanks around it. Requests for one identity name the renditions of each other
by the same keys, and share the key of their own if they have the same tag; other requests share it
only if hashes collide. -/
theorem last_settings_decide (url : String) (target : Size) (settings : List Setting) :
    (∀ f, (made url target settings).get? f =
      (last? settings f).or ((ofUrl url target).get? f)) ∧
    ((made url target settings).originUrl = url ∧ (made url target settings).target = target ∧
      (made url target settings).originSize? = none) ∧
    (∀ s, ∀ f ≠ s.field,
      (made url target (settings ++ [s])).get? f = (made url target settings).get? f) ∧
    (∀ before s t after, settings = before ++ s :: t :: after → s.field ≠ t.field →
      made url target (before ++ t :: s :: after) = made url target settings) ∧
    (made url target settings).identityKey =
      (last? settings .identityKey).getD
        (Key.normalize ((last? settings .identityUrl).getD url)) ∧
    ∀ url' target' settings',
      let p := made url target settings
      let q := made url' target' settings'
      (Key.normalize p.identityUrl = Key.normalize q.identityUrl →
        p.renditionKey q.sizeTag = q.fileKey ∧
          (p.sizeTag = q.sizeTag → p.fileKey = q.fileKey) ∧
          (p.identityKey? = q.identityKey? → p.identityKey = q.identityKey)) ∧
      (Key.Counted p.identityUrl → Key.Counted q.identityUrl →
        (p.fileKey = q.fileKey ↔
          (Key.normalize p.identityUrl = Key.normalize q.identityUrl ∧ p.sizeTag = q.sizeTag) ∨
            Hash.Sha256.Collide (Key.preimage p.identityUrl p.sizeTag)
              (Key.preimage q.identityUrl q.sizeTag))) := by
  refine ⟨get?_made url target settings, made_rest url target settings, ?_, ?_, ?_, ?_⟩
  · intro s f hf
    rw [made_concat, get?_set, given?_other hf, Option.none_or]
  · intro before s t after hsplit hne
    rw [hsplit]
    exact made_swap url target before after hne
  · rw [identityKey, identityKey?_made, identityUrl_made, Key.identityKey]
  · intro url' target' settings' p q
    refine ⟨fun identity => ⟨renditionKey_congr identity q.sizeTag, ?_,
      identityKey_congr identity⟩, fileKey_eq_iff⟩
    intro tag
    rw [fileKey, fileKey, tag]
    exact renditionKey_congr identity q.sizeTag

def renamed : List Setting :=
  [⟨.identityUrl, "b.png"⟩, ⟨.sizeTag, "large"⟩, ⟨.identityUrl, " a.png"⟩]

def mirrored : List Setting := [⟨.reuse, ["large"]⟩, ⟨.identityUrl, "a.png\n"⟩]

/-- Requests for an image at two places that is given one identity name its renditions alike. -/
theorem mirrored_shares_keys :
    let p := made "http://cdn-1/a.png?sig=1" ⟨100, 100⟩ renamed
    let q := made "http://cdn-2/a.png?sig=2" ⟨50, 50⟩ mirrored
    Key.normalize p.identityUrl = Key.normalize q.identityUrl ∧
      p.renditionKey q.sizeTag = q.fileKey ∧ p.identityKey = "a.png" ∧
      p.get? .sizeTag = some "large" ∧ q.get? .sizeTag = some "50x50" := by
  intro p q
  obtain ⟨fields, -, -, -, memory, keys⟩ :=
    last_settings_decide "http://cdn-1/a.png?sig=1" ⟨100, 100⟩ renamed
  obtain ⟨fields', -⟩ := last_settings_decide "http://cdn-2/a.png?sig=2" ⟨50, 50⟩ mirrored
  have identity : Key.normalize p.identityUrl = Key.normalize q.identityUrl := by decide
  obtain ⟨renditions, -⟩ := (keys "http://cdn-2/a.png?sig=2" ⟨50, 50⟩ mirrored).1 identity
  exact ⟨identity, renditions, memory.trans (by decide), (fields .sizeTag).trans (by decide),
    (fields' .sizeTag).trans (by decide)⟩

end ImageCache.Request
