import Reflectdb.Lib.Machine
import Reflectdb.Core.Types
import Reflectdb.Core.TextLaws
import Reflectdb.Client.Push
import Reflectdb.Client.ClientClock
import Reflectdb.Server.OpProcessor
import Reflectdb.Server.ExactlyOnce
import Reflectdb.Client.Store
import Reflectdb.Server.ResultCache
import Reflectdb.Sync.Mirror
import Reflectdb.Server.Broadcast
import Reflectdb.Sync.Channel
import Reflectdb.Sync.ChannelInv
import Reflectdb.Sync.ChannelSteps
import Reflectdb.Sync.CacheMirror
import Reflectdb.Sync.Converge
import Reflectdb.Sync.Resume
import Reflectdb.Core.Hlc
import Reflectdb.Sync.Causality
import Reflectdb.Server.ClockLead
import Reflectdb.Server.Poll
import Reflectdb.Server.Compaction
import Reflectdb.Server.Conflict
import Reflectdb.Server.RowClocks
import Reflectdb.Server.MergeOrder
import Reflectdb.Server.NewestWins
import Reflectdb.Server.WriteVisibility
import Reflectdb.Server.CompareAndSet
import Reflectdb.Server.SharedRow
import Reflectdb.Server.ServerOps
import Reflectdb.Server.UserDb
import Reflectdb.Sync.WriterMirror
import Reflectdb.Server.ApplyOpIf
import Reflectdb.Server.Sessions
import Reflectdb.Server.Presence
import Reflectdb.Server.Isolation
import Reflectdb.Server.EagerOp
import Reflectdb.Server.Readonly
import Reflectdb.Sync.BatchRows
import Reflectdb.Sync.Windows
import Reflectdb.Sync.PushRun
import Reflectdb.Sync.Durable
import Reflectdb.Server.TableScope
import Reflectdb.Server.Rooms
import Reflectdb.Server.QueryGroups
import Reflectdb.Sync.DeltaOrder
import Reflectdb.Sync.Rollback
import Reflectdb.Server.EagerRun
import Reflectdb.Sync.TextKept
import Reflectdb.Server.SharedPresence
import Reflectdb.Server.Departures
import Reflectdb.Server.Transactions
import Reflectdb.Server.StampOrder
import Reflectdb.Sync.TextWire
import Reflectdb.ObjectStorage.ApplyOp
import Reflectdb.ObjectStorage.OpRing
import Reflectdb.ObjectStorage.WalReplay
import Reflectdb.Sync.TextRemoval
import Reflectdb.Sync.TextPatch
import Reflectdb.Sync.RoundTrip
import Reflectdb.Lib.FixedWindow
import Reflectdb.Server.RateLimiter
import Reflectdb.Server.EphemeralRuns
import Reflectdb.Server.HearWriter
import Reflectdb.Client.MeshRouter
import Reflectdb.Lib.UrlPath
import Reflectdb.ObjectStorage.S3Keys
import Reflectdb.ObjectStorage.S3List
import Reflectdb.Client.UseSync
import Reflectdb.Server.Rest
import Reflectdb.Lib.Chains
import Reflectdb.Server.MessageQueue
import Reflectdb.Transport.SendContract
import Reflectdb.Server.PrefetchTransparent
import Reflectdb.Core.HlcCodec
import Reflectdb.Server.Locks
import Reflectdb.Server.ReplayDetector
import Reflectdb.Presence.StoreRuns
import Reflectdb.Presence.LastState
import Reflectdb.ObjectStorage.SameAnswers
import Reflectdb.ObjectStorage.Fleet.Adopt
import Reflectdb.ObjectStorage.Fleet.Durability
import Reflectdb.ObjectStorage.Fleet.Rows
import Reflectdb.Lib.Lasting
