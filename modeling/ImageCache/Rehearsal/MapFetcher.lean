import ImageCache.Rehearsal.MapStore
import ImageCache.Rehearsal.TileCodec
import ImageCache.Rehearsal.World

namespace ImageCache.Rehearsal

def mapFetcher : Fetcher (World MapStore Tile) MapEntry MapWriter Stream Tile Fault where
  settings := .standard
  store := MapStore.byteStore World.tierPart
  source := World.source
  codec := Tile.codec
  memory := World.memoryTier Tile.cost
  observer := World.recorder
  notice := World.note

def troubled (faults : StoreFaults) (moves : List (Move × Bool)) : World MapStore Tile :=
  (World.start { MapStore.empty with faults := faults } ⟨0, 0⟩).serve "tile"
    ⟨some moves, none, none⟩

end ImageCache.Rehearsal
