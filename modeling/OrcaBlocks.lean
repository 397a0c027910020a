import OrcaBlocks.Lib.Prog
import OrcaBlocks.Lib.Pool
import OrcaBlocks.Lib.Bytes
import OrcaBlocks.Lib.MachineInt
import OrcaBlocks.Lib.Sha256
import OrcaBlocks.Storage.Types
import OrcaBlocks.Storage.ChunkIndexes
import OrcaBlocks.Storage.Wire
import OrcaBlocks.Storage.MemoryTier
import OrcaBlocks.Storage.World
import OrcaBlocks.Storage.LocalCache
import OrcaBlocks.Storage.Backend
import OrcaBlocks.Storage.Calm
import OrcaBlocks.Services.Images
import OrcaBlocks.Storage.Invariant
import OrcaBlocks.Storage.CacheSpec
import OrcaBlocks.Storage.Content
import OrcaBlocks.Storage.Atomic
import OrcaBlocks.Storage.ReadWrite
import OrcaBlocks.Storage.Steps
import OrcaBlocks.Storage.Threads
import OrcaBlocks.Storage.Commit
import OrcaBlocks.Storage.GoRuntime
import OrcaBlocks.Storage.Closure
import OrcaBlocks.Storage.Sessions
import OrcaBlocks.Storage.FlatArray
import OrcaBlocks.Storage.TwoSessions
import OrcaBlocks.Storage.CommitFaults
import OrcaBlocks.Storage.Alone
import OrcaBlocks.Storage.WriteFaults
import OrcaBlocks.Lib.Table
import OrcaBlocks.Storage.Repository
import OrcaBlocks.Storage.RepositoryAgree
import OrcaBlocks.Lib.Base64
import OrcaBlocks.Lib.Text
import OrcaBlocks.Services.BootArgs
import OrcaBlocks.Lib.Path
import OrcaBlocks.Services.Firecracker
import OrcaBlocks.Services.Node
import OrcaBlocks.Services.Drives
import OrcaBlocks.Services.Ledger
import OrcaBlocks.Services.NbdDevices
import OrcaBlocks.Services.NbdPool
import OrcaBlocks.Storage.Ranges
import OrcaBlocks.Lib.Recency
import OrcaBlocks.Storage.MemoryLru
import OrcaBlocks.Storage.CacheLatest
import OrcaBlocks.Storage.DiskEviction
import OrcaBlocks.Storage.RangePath
import OrcaBlocks.Storage.QuietCache
import OrcaBlocks.Storage.BatchSize
import OrcaBlocks.Storage.FetchOnce
import OrcaBlocks.Lib.BigEndian
import OrcaBlocks.Lib.Go
import OrcaBlocks.Nbd.Server
import OrcaBlocks.Storage.ManifestRoundTrip
import OrcaBlocks.Lib.Utf8
import OrcaBlocks.Services.SessionNetwork
import OrcaBlocks.Services.Terminal
import OrcaBlocks.Nbd.FileDevice
import OrcaBlocks.Services.Credentials
import OrcaBlocks.Nbd.ReadReply
import OrcaBlocks.Nbd.ReadAhead
import OrcaBlocks.Nbd.RangeCheck
import OrcaBlocks.Services.Import
import OrcaBlocks.Nbd.Framing
import OrcaBlocks.Storage.Flush
import OrcaBlocks.Nbd.SessionBackend
import OrcaBlocks.Nbd.Coherence
import OrcaBlocks.Nbd.Durability
import OrcaBlocks.Nbd.NoPanic
import OrcaBlocks.Nbd.Interleaving
import OrcaBlocks.Lib.Staged
import OrcaBlocks.Storage.Stages
import OrcaBlocks.Storage.AcknowledgedWrites
import OrcaBlocks.Lib.Quote
import OrcaBlocks.Services.SuccessMarker
import OrcaBlocks.Services.Teardown
