import ImageCache.Proofs.DirectoryStore.Staged
import ImageCache.Reading.Drain
import Mathlib.Algebra.BigOperators.Group.Finset.Basic
import Mathlib.Data.Finmap

namespace ImageCache

open Disk

/-- The store as those who use it may think of it: what has been committed, and the keys that
are held. -/
structure Ledger where
  content : Finmap fun _ : String => ByteArray
  held : Finset String

inductive Observation where
  | opened (key : String)
  | refused (key : String)
  /-- So many of the bytes offered were taken, from the front. -/
  | wrote (key : String) (offered : ByteArray) (taken : Nat)
  | finished (how : Finish) (key : String) (written : ByteArray)
  | forgotten (key : String)
  | found (key : String) (bytes : ByteArray)
  | missing (key : String)
  /-- There was a flush, which met the staged files of these keys when they were stale. -/
  | flushed (stale : Set String)
  | waited
  | nobody
  | failed (fault : Fault)

namespace Ledger

def empty : Ledger := ⟨∅, ∅⟩

def total (a : Ledger) : Nat :=
  ∑ key ∈ a.content.keys, (a.content.lookup key).elim 0 ByteArray.size

def after (a : Ledger) (key : String) (written : ByteArray) :
    Finish → Finmap fun _ : String => ByteArray
  | .commit => a.content.insert key written
  | .abort => a.content
  | .drop => a.content

/-- What may be observed of a store of which this is the ledger, and its ledger then. No call may
fail. -/
inductive Step : Ledger → Observation → Ledger → Prop
  | opened {a : Ledger} {key : String} (free : key ∉ a.held) :
      Step a (.opened key) { a with held := insert key a.held }
  | refused {a : Ledger} {key : String} (held : key ∈ a.held) : Step a (.refused key) a
  | wrote {a : Ledger} {key : String} {offered : ByteArray} {taken : Nat}
      (within : taken ≤ offered.size) (some : 0 < offered.size → 0 < taken) (held : key ∈ a.held) :
      Step a (.wrote key offered taken) a
  | finished {a : Ledger} (how : Finish) {key : String} (written : ByteArray)
      (held : key ∈ a.held) :
      Step a (.finished how key written) ⟨a.after key written how, a.held.erase key⟩
  | forgotten {a : Ledger} {key : String} (held : key ∈ a.held) : Step a (.forgotten key) a
  | found {a : Ledger} {key : String} {bytes : ByteArray}
      (there : a.content.lookup key = some bytes) : Step a (.found key bytes) a
  | missing {a : Ledger} {key : String} (absent : a.content.lookup key = none) :
      Step a (.missing key) a
  | flushed {a b : Ledger} {stale : Set String}
      (kept : ∀ key bytes, b.content.lookup key = some bytes → a.content.lookup key = some bytes)
      (held : ∀ key, key ∈ b.held ↔ key ∈ a.held ∧ key ∉ stale) : Step a (.flushed stale) b
  | waited {a : Ledger} : Step a .waited a
  | nobody {a : Ledger} : Step a .nobody a

end Ledger

def Finish.reply : Finish → StagedEntry → Disk → Except Fault Unit
  | .commit, entry, d => (entry.commit d).1.1
  | .abort, entry, d => (entry.abort d).1
  | .drop, _, _ => .ok ()

/-- The staged file of the key is there, and old enough for a flush to remove it. -/
def StaleAt (s : DirectoryStore) (d : Disk) (key : String) : Prop :=
  ∃ id, d.find (s.root ++ [stagedName key]) = .ok (some (.file id)) ∧
    s.isStale d.now (DirectoryStore.info s.root d (stagedName key, id)) = true

/-- What an act comes to. Whoever is given an entry reads it to its end. -/
def Scene.observe (s : DirectoryStore) (σ : Scene) : Act → Observation
  | .stage identity tag =>
    match (s.stage (Key.diskKey identity tag) σ.disk).1 with
    | .ok (some _) => .opened (Key.diskKey identity tag)
    | .ok none => .refused (Key.diskKey identity tag)
    | .error e => .failed e
  | .write i bytes =>
    match σ.live[i]? with
    | none => .nobody
    | some w =>
      match (StagedEntry.write bytes (w.entry, σ.disk)).1 with
      | .ok n => .wrote w.key bytes n
      | .error e => .failed e
  | .finish how i =>
    match σ.live[i]? with
    | none => .nobody
    | some w =>
      match how.reply w.entry σ.disk with
      | .ok () => .finished how w.key w.written
      | .error e => .failed e
  | .forget i =>
    match σ.live[i]? with
    | none => .nobody
    | some w => .forgotten w.key
  | .read identity tag =>
    match s.read (Key.diskKey identity tag) σ.disk with
    | (.ok none, _) => .missing (Key.diskKey identity tag)
    | (.ok (some entry), d) =>
      match (OpenFile.reader.toReader.run Reading.toEnd (entry, d)).1 with
      | .ok bytes => .found (Key.diskKey identity tag) bytes
      | .error e => .failed e
    | (.error e, _) => .failed e
  | .flush =>
    match (s.prune σ.disk).1 with
    | .ok _ => .flushed {key | StaleAt s σ.disk key}
    | .error e => .failed e
  | .wait _ => .waited

/-- Every step of the run is one of the ledger, and all along the size is the total of the ledger.
-/
inductive Follows (s : DirectoryStore) : Ledger → Scene → List Act → Prop
  | done {a : Ledger} {σ : Scene} (size : s.size σ.disk = .ok a.total) : Follows s a σ []
  | step {a b : Ledger} {σ : Scene} {act : Act} {rest : List Act}
      (size : s.size σ.disk = .ok a.total) (step : a.Step (σ.observe s act) b)
      (next : Follows s b (σ.step s act) rest) : Follows s a σ (act :: rest)

end ImageCache
