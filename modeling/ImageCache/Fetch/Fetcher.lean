import ImageCache.Fetch.Collaborator
import ImageCache.Fetch.Event
import ImageCache.Reading.Buffered
import ImageCache.Reading.Rewindable
import ImageCache.Sampling
import ImageCache.Settings

namespace ImageCache

inductive Provenance where
  | diskExact
  | reuse (tag : String)
  | network
  | stream
deriving DecidableEq, Repr

structure Fetched (I : Type) where
  image : I
  provenance : Provenance
  plan : DecodePlan

/-- Why a fetch fails. That no image is to be had is no failure. -/
inductive FetchFault (E : Type) where
  | store (fault : Fault)
  | decode (fault : E)
  | lookAheadExceeded (limit : Nat)

namespace FetchFault

def message {E : Type} (describe : E → String) : FetchFault E → String
  | store e => "byte store fault: " ++ e.message
  | decode e => "could not decode image: " ++ describe e
  | lookAheadExceeded limit =>
    "image header exceeded the " ++ toString limit ++ " byte look-ahead window"

end FetchFault

structure Fetcher (W R Wr S I E : Type) where
  settings : FetchSettings
  store : ByteStore W R Wr
  source : Source W S
  codec : Codec I E
  memory : MemoryTier W I
  observer : Observer W
  notice : Notice → StateM W Unit

/-- A fetch under way: its request, on which the size found is recorded, and the world. -/
structure Session (W : Type) where
  request : Request
  world : W

/-- A step of a fetch. A fault ends the fetch and keeps what was done. -/
abbrev FetchM (W E α : Type) := ExceptT (FetchFault E) (StateM (Session W)) α

abbrev FetchResult (I E : Type) := Except (FetchFault E) (Option (Fetched I))

namespace FetchM

variable {W E α : Type}

def act (op : StateM W α) : FetchM W E α := fun s =>
  let (a, w) := op s.world
  (.ok a, { s with world := w })

def runFor (step : FetchM W E α) (r : Request) : StateM W (Except (FetchFault E) α × Request) :=
  fun w =>
    let (result, s) := step ⟨r, w⟩
    ((result, s.request), s.world)

end FetchM

namespace Fetcher

open FetchM

variable {W R Wr S I E α : Type}

def emit (f : Fetcher W R Wr S I E) (event : Event) : FetchM W E Unit := do
  act (f.observer.onEvent (← get).request event)

def failStore (f : Fetcher W R Wr S I E) (e : Fault) : FetchM W E α := do
  act (f.notice (.storeFault e))
  throw (.store e)

def failDecode (f : Fetcher W R Wr S I E) (e : E) : FetchM W E α := do
  act (f.notice .decodeFailed)
  throw (.decode e)

def fromStore (f : Fetcher W R Wr S I E) (call : StateM W (Except Fault α)) : FetchM W E α := do
  match ← act call with
  | .ok a => pure a
  | .error e => f.failStore e

def scanReuse (f : Fetcher W R Wr S I E) : List String → FetchM W E (Option (R × Provenance))
  | [] => pure none
  | tag :: rest => do
    let key := (← get).request.renditionKey tag
    match ← f.fromStore (f.store.read key) with
    | some entry =>
      f.emit (.reuseHit tag)
      pure (some (entry, .reuse tag))
    | none =>
      f.emit (.reuseMiss tag key)
      f.scanReuse rest

def readCached (f : Fetcher W R Wr S I E) : FetchM W E (Option (R × Provenance)) := do
  let r := (← get).request
  match ← f.fromStore (f.store.read r.fileKey) with
  | some entry =>
    f.emit .diskHit
    pure (some (entry, .diskExact))
  | none => f.scanReuse r.reuseTags

def abandon (f : Fetcher W R Wr S I E) (writer : Wr) : FetchM W E Unit := do
  match ← act (f.store.abort writer) with
  | .ok () => pure ()
  | .error e => act (f.notice (.abortFailed e))

def send (f : Fetcher W R Wr S I E) (url : String) (writer : Wr) :
    StateM W (Except Fault Unit × Watched Wr) := do
  let transfer ← f.source.transfer url
  fun w =>
    let (result, s) := (Watched.sink f.store.writer).run transfer (Watched.start (writer, w))
    let (sent, w) := s.detach
    ((result, sent), w)

/-- Downloads into the store and reads the committed entry back. A transfer that broke off is the
store's fault if the store failed in it, else the image is just not to be had. -/
def download (f : Fetcher W R Wr S I E) : FetchM W E (Option R) := do
  let r := (← get).request
  f.emit (.downloading r.remoteUrl)
  match ← f.fromStore (f.store.stage r.fileKey) with
  | none =>
    f.emit .writerConflict
    pure none
  | some writer =>
    let (result, sent) ← act (f.send r.remoteUrl writer)
    match result with
    | .ok () =>
      f.fromStore (f.store.commit sent.inner)
      f.emit (.committed sent.accepted)
      f.fromStore (f.store.read r.fileKey)
    | .error e =>
      f.abandon sent.inner
      if sent.failed then f.failStore e
      else
        f.emit (.downloadFailed e.message)
        pure none

def choosePlan (f : Fetcher W R Wr S I E) (origin : Size) : FetchM W E DecodePlan := do
  modify fun s => { s with request := s.request.recordOrigin origin }
  let plan := DecodePlan.choose origin (← get).request.target
  f.emit (.decoding origin plan.factor)
  pure plan

def decoding {H A : Type} (f : Fetcher W R Wr S I E)
    (run : A → H × W → Except E α × (H × W)) (program : A) (handle : H) : FetchM W E (α × H) := do
  let (result, handle) ← act fun w =>
    let (result, (handle, w)) := run program (handle, w)
    ((result, handle), w)
  match result with
  | .ok a => pure (a, handle)
  | .error e => f.failDecode e

/-- Entries read through a buffer that belongs to the entry. -/
def bufferedEntry (f : Fetcher W R Wr S I E) : SeekableReader (Buffered R × W) :=
  (Buffered.reader f.store.entry).remap Buffered.attach Buffered.detach

/-- Reads an entry twice, starting over in between. -/
def decodeEntry (f : Fetcher W R Wr S I E) (entry : R) : FetchM W E (I × DecodePlan) := do
  let reader := f.bufferedEntry
  let (origin, handle) ← f.decoding reader.run f.codec.boundsSeekable (Buffered.start entry)
  let (rewound, handle) ← act fun w =>
    let (result, (handle, w)) := reader.rewind (handle, w)
    ((result, handle), w)
  f.fromStore (pure rewound)
  let plan ← f.choosePlan origin
  let (image, _) ← f.decoding reader.run (f.codec.decodeSeekable plan.factor) handle
  pure (image, plan)

def locate (f : Fetcher W R Wr S I E) : FetchM W E (Option (R × Provenance)) := do
  match ← f.readCached with
  | some found => pure (some found)
  | none => return (← f.download).map (·, .network)

def fetchSteps (f : Fetcher W R Wr S I E) : FetchM W E (Option (Fetched I)) := do
  f.emit (.started (← get).request.fileKey)
  match ← f.locate with
  | none =>
    f.emit .unavailable
    pure none
  | some (entry, provenance) =>
    let (image, plan) ← f.decodeEntry entry
    pure (some ⟨image, provenance, plan⟩)

/-- Fetches and decodes the image of a request, and hands the request back with the size found
recorded on it. A download goes into the store and is read back from there. There is no image if the
store does not have it and it cannot be downloaded. -/
def fetch (f : Fetcher W R Wr S I E) (r : Request) : StateM W (FetchResult I E × Request) :=
  f.fetchSteps.runFor r

/-- Streams that can be taken back, where what is kept belongs to the stream. -/
def rewindableStream (f : Fetcher W R Wr S I E) : Reader (Rewindable S × W) :=
  (Rewindable.reader f.source.stream).remap Rewindable.attach Rewindable.detach

/-- Reads a stream once, with what was read for the size handed out again for the image. -/
def decodeStream (f : Fetcher W R Wr S I E) (stream : S) : FetchM W E (I × DecodePlan) := do
  let reader := f.rewindableStream
  let limit := f.settings.lookAhead
  let (token, handle) := (Rewindable.start stream).savePosition limit
  let (origin, handle) ← f.decoding reader.run f.codec.bounds handle
  match handle.reset token with
  | (.error _, _) => throw (.lookAheadExceeded limit)
  | (.ok (), handle) =>
    let plan ← f.choosePlan origin
    let (image, _) ← f.decoding reader.run (f.codec.decode plan.factor) handle
    pure (image, plan)

def streamSteps (f : Fetcher W R Wr S I E) : FetchM W E (Option (Fetched I)) := do
  let url := (← get).request.remoteUrl
  f.emit (.downloading url)
  match ← act (f.source.openStream url) with
  | .ok (some stream) =>
    let (image, plan) ← f.decodeStream stream
    pure (some ⟨image, .stream, plan⟩)
  | .ok none =>
    f.emit .unavailable
    pure none
  | .error e =>
    f.emit (.downloadFailed e.message)
    f.emit .unavailable
    pure none

/-- Decodes straight from the source, without a look at the store. -/
def fetchStreaming (f : Fetcher W R Wr S I E) (r : Request) :
    StateM W (FetchResult I E × Request) :=
  f.streamSteps.runFor r

def lookUp (f : Fetcher W R Wr S I E) (r : Request) : StateM W (Option I) :=
  f.memory.get r.identityKey

/-- Keeps a decoded image in memory, and tells whether it did: not without key or image, not under
the empty key, and not where memory is switched off. -/
def remember (f : Fetcher W R Wr S I E) (key : Option String) (image : Option I) :
    StateM W Bool := do
  match key, image with
  | some key, some image =>
    if key ≠ "" ∧ f.settings.memorySupported then
      f.memory.set key image
      pure true
    else pure false
  | _, _ => pure false

def forgetAll (f : Fetcher W R Wr S I E) : StateM W Unit := f.memory.clear

def maintain (f : Fetcher W R Wr S I E) : StateM W Maintenance := f.store.maintain

def lookUpOrFetch (f : Fetcher W R Wr S I E) (r : Request) :
    StateM W (Except (FetchFault E) (Option I) × Request) := do
  match ← f.lookUp r with
  | some image => pure (.ok (some image), r)
  | none =>
    match ← f.fetch r with
    | (.ok (some fetched), r) =>
      let _ ← f.remember (some r.identityKey) (some fetched.image)
      pure (.ok (some fetched.image), r)
    | (.ok none, r) => pure (.ok none, r)
    | (.error e, r) => pure (.error e, r)

end Fetcher

end ImageCache
