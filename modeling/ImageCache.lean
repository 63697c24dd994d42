import ImageCache.Binary
import ImageCache.Dialogue
import ImageCache.DirectoryStore.Basic
import ImageCache.DirectoryStore.Collaborator
import ImageCache.DirectoryStore.EntryPath
import ImageCache.DirectoryStore.Prune
import ImageCache.Disk.Basic
import ImageCache.Disk.OpenFile
import ImageCache.Disk.Operations
import ImageCache.Fault
import ImageCache.Fetch.Collaborator
import ImageCache.Fetch.Event
import ImageCache.Fetch.Fetcher
import ImageCache.Fetch.Transfer
import ImageCache.Hash.Crc32
import ImageCache.Hash.Sha256
import ImageCache.Key
import ImageCache.Maintenance
import ImageCache.MemoryCache
import ImageCache.Part
import ImageCache.Picture.Bits
import ImageCache.Picture.BoundsPass
import ImageCache.Picture.Codec
import ImageCache.Picture.Fault
import ImageCache.Picture.Flate.Block
import ImageCache.Picture.Flate.Inflate
import ImageCache.Picture.Format
import ImageCache.Picture.Gif.Dictionary
import ImageCache.Picture.Gif.File
import ImageCache.Picture.Gif.Frame
import ImageCache.Picture.Gif.Lzw
import ImageCache.Picture.Gif.Screen
import ImageCache.Picture.Grammar
import ImageCache.Picture.Jpeg.File
import ImageCache.Picture.Jpeg.Segment
import ImageCache.Picture.Layout
import ImageCache.Picture.Png.Chunk
import ImageCache.Picture.Png.File
import ImageCache.Picture.Png.Head
import ImageCache.Picture.Png.Header
import ImageCache.Picture.Png.Pixels
import ImageCache.Picture.PrefixCode
import ImageCache.Picture.Raster
import ImageCache.Picture.Shrink
import ImageCache.Picture.Webp.Container
import ImageCache.Picture.Webp.File
import ImageCache.Picture.Webp.Lossless.Canvas
import ImageCache.Picture.Webp.Lossless.Image
import ImageCache.Picture.Webp.Lossless.Pixels
import ImageCache.Picture.Webp.Lossless.Symbols
import ImageCache.Picture.Webp.Lossy.Arithmetic
import ImageCache.Picture.Webp.Lossy.Coefficients
import ImageCache.Picture.Webp.Lossy.Frame
import ImageCache.Picture.Webp.Lossy.Modes
import ImageCache.Picture.Webp.Lossy.Probabilities
import ImageCache.Proofs.DirectoryStore.AnyKey
import ImageCache.Proofs.DirectoryStore.Ledger
import ImageCache.Proofs.DirectoryStore.Operations
import ImageCache.Proofs.DirectoryStore.PlainKey
import ImageCache.Proofs.DirectoryStore.Prune
import ImageCache.Proofs.DirectoryStore.Recorded
import ImageCache.Proofs.DirectoryStore.Refinement
import ImageCache.Proofs.DirectoryStore.Resolution
import ImageCache.Proofs.DirectoryStore.Scene
import ImageCache.Proofs.DirectoryStore.Shelf
import ImageCache.Proofs.DirectoryStore.Staged
import ImageCache.Proofs.DirectoryStore.Writers
import ImageCache.Proofs.Disk.Lookup
import ImageCache.Proofs.Disk.MakeDirs
import ImageCache.Proofs.Disk.Nodes
import ImageCache.Proofs.Fetch.Again
import ImageCache.Proofs.Fetch.Conduct
import ImageCache.Proofs.Fetch.Course
import ImageCache.Proofs.Fetch.Dependable
import ImageCache.Proofs.Fetch.DirectoryView
import ImageCache.Proofs.Fetch.Integrity
import ImageCache.Proofs.Fetch.Judging
import ImageCache.Proofs.Fetch.OnDisk
import ImageCache.Proofs.Fetch.Outcome
import ImageCache.Proofs.Fetch.Perusal
import ImageCache.Proofs.Fetch.Procedure
import ImageCache.Proofs.Fetch.Procurement
import ImageCache.Proofs.Fetch.Record
import ImageCache.Proofs.Fetch.Reuse
import ImageCache.Proofs.Fetch.Search
import ImageCache.Proofs.Fetch.Serving
import ImageCache.Proofs.Fetch.StreamCourse
import ImageCache.Proofs.Fetch.Streaming
import ImageCache.Proofs.Fetch.Talk
import ImageCache.Proofs.Fetch.Verdict
import ImageCache.Proofs.Fetch.WriterLife
import ImageCache.Proofs.Reading.Delivery
import ImageCache.Proofs.Reading.Layers
import ImageCache.Proofs.Reading.Mirror
import ImageCache.Proofs.Reading.OpenFile
import ImageCache.Reading.Basic
import ImageCache.Reading.Buffered
import ImageCache.Reading.Drain
import ImageCache.Reading.Rewindable
import ImageCache.Reading.Supply
import ImageCache.Rehearsal.MapFetcher
import ImageCache.Rehearsal.MapStore
import ImageCache.Rehearsal.ScriptedSource
import ImageCache.Rehearsal.Stream
import ImageCache.Rehearsal.Tampering
import ImageCache.Rehearsal.TileCodec
import ImageCache.Rehearsal.World
import ImageCache.Request
import ImageCache.Sampling
import ImageCache.Settings
import ImageCache.Size
import ImageCache.Text.Blank
import ImageCache.Text.Hex
import ImageCache.Proofs.Fetch.Refusals
import ImageCache.Proofs.Fetch.Feeding
import ImageCache.Proofs.Fetch.ReadFaults
import ImageCache.Proofs.Fetch.Report
import ImageCache.Proofs.Reading.Window
import ImageCache.Proofs.Fetch.Coherence
import ImageCache.Proofs.Fetch.Independence
import ImageCache.Proofs.Keys
import ImageCache.Proofs.DirectoryStore.Collision
import ImageCache.Proofs.DirectoryStore.Containment
import ImageCache.Proofs.DirectoryStore.Arranged
import ImageCache.Proofs.DirectoryStore.Usage
import ImageCache.Proofs.DirectoryStore.NestedKeys
import ImageCache.Proofs.DirectoryStore.Loans
import ImageCache.Proofs.Reading.Pass
import ImageCache.Proofs.Fetch.LookAhead
import ImageCache.Proofs.Picture.Heads
import ImageCache.Proofs.Picture.Rounds
import ImageCache.Proofs.Picture.Agreement
import ImageCache.Proofs.Fetch.HeadWindow
import ImageCache.Proofs.MemoryCache.Books
import ImageCache.Proofs.DirectoryStore.Census
import ImageCache.Proofs.DirectoryStore.Pruning
import ImageCache.Proofs.DirectoryStore.Pruned
import ImageCache.Proofs.DirectoryStore.Traceless
import ImageCache.Proofs.MemoryCache.Retention
import ImageCache.Proofs.Reading.Reach
import ImageCache.Proofs.Sampling.Factor
import ImageCache.Proofs.Sampling.Plan
import ImageCache.Proofs.Requests
import ImageCache.Proofs.DirectoryStore.HashedKey
import ImageCache.Proofs.DirectoryStore.Walk
import ImageCache.Proofs.Reading.Finite
import ImageCache.Proofs.Picture.Ending
