import ImageCache.Disk.OpenFile
import ImageCache.Proofs.Reading.Mirror

namespace ImageCache.OpenFile

/-- The file that is open has these bytes as a whole, of which those are ahead. -/
def Ahead (whole : ByteArray) (s : OpenFile × Disk) (ahead : ByteArray) : Prop :=
  ∃ id, s.1.node = .file id ∧ (s.2.file id).bytes = whole ∧
    ahead = whole.extract s.1.position whole.size

/-- An open file cannot be told from its bytes. -/
theorem mirrors (whole : ByteArray) : reader.Mirrors (.ofBytes whole) (Ahead whole) where
  read := by
    rintro ⟨⟨_, position⟩, d⟩ _ ⟨id, rfl, hb, rfl⟩ n
    refine ⟨_, _, _, rfl, ?_, id, rfl, hb, rfl⟩
    dsimp only [SeekableReader.ofBytes]
    rw [hb, extract_behind, extract_from]
  horizon := by
    rintro ⟨⟨_, position⟩, d⟩ _ ⟨id, rfl, hb, rfl⟩
    dsimp only [reader, horizon, SeekableReader.ofBytes]
    rw [ByteArray.size_extract, Nat.min_self, hb]
  rewind := by
    rintro ⟨⟨_, position⟩, d⟩ _ ⟨id, rfl, hb, rfl⟩
    exact ⟨_, _, _, rfl, rfl, id, rfl, hb, ByteArray.extract_zero_size.symm⟩

theorem read_whole (id : FileId) (d : Disk) :
    (reader.toReader.run Reading.toEnd (⟨.file id, 0⟩, d)).1 = .ok (d.file id).bytes := by
  have ahead : Ahead (d.file id).bytes (⟨.file id, 0⟩, d) (d.file id).bytes :=
    ⟨id, rfl, rfl, ByteArray.extract_zero_size.symm⟩
  obtain ⟨s', hr, -⟩ := (mirrors (d.file id).bytes).replays.toEnd ahead
  rw [hr]

end ImageCache.OpenFile
