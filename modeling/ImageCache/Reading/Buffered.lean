import ImageCache.Reading.Basic

namespace ImageCache

structure Buffered (σ : Type) where
  inner : σ
  /-- Fetched but not yet handed out. -/
  ahead : ByteArray

namespace Buffered

variable {σ H W : Type}

def detach (s : Buffered (H × W)) : Buffered H × W := (⟨s.inner.1, s.ahead⟩, s.inner.2)

def attach (s : Buffered H × W) : Buffered (H × W) := ⟨(s.1.inner, s.2), s.1.ahead⟩

def blockSize : Nat := 8192

def start (inner : σ) : Buffered σ := ⟨inner, ByteArray.empty⟩

/-- Hands out bytes fetched before, else fetches a block. A request as large as a block goes past
the buffer. -/
def read (r : Reader σ) (n : Nat) (s : Buffered σ) : Except Fault ByteArray × Buffered σ :=
  if s.ahead.size ≠ 0 then
    (.ok (s.ahead.extract 0 n), { s with ahead := s.ahead.extract n s.ahead.size })
  else if blockSize ≤ n then
    let (reply, inner) := r.read n s.inner
    (reply, { s with inner := inner })
  else
    match r.read blockSize s.inner with
    | (.ok block, inner) => (.ok (block.extract 0 n), ⟨inner, block.extract n block.size⟩)
    | (.error e, inner) => (.error e, { s with inner := inner })

def rewind (r : SeekableReader σ) (s : Buffered σ) : Except Fault Unit × Buffered σ :=
  match r.rewind s.inner with
  | (.ok (), inner) => (.ok (), start inner)
  | (.error e, inner) => (.error e, { s with inner := inner })

def reader (r : SeekableReader σ) : SeekableReader (Buffered σ) where
  read := read r.toReader
  horizon s := s.ahead.size + r.horizon s.inner
  rewind := rewind r

end Buffered

end ImageCache
