import HuronFS.Lib.OrdMap
import HuronFS.Lib.Run
import HuronFS.Lib.ByteFile
import HuronFS.Lib.Frames
import HuronFS.Lib.Reader
import HuronFS.Lib.PosixTree
import HuronFS.Common.Const
import HuronFS.Common.Task
import HuronFS.Common.TaskQueue
import HuronFS.Common.TaskRing
import HuronFS.Common.InputQueue
import HuronFS.Common.AccessQueue
import HuronFS.Common.Wire
import HuronFS.Master.Basic
import HuronFS.Master.Blocks
import HuronFS.Master.Tables
import HuronFS.Master.Handler
import HuronFS.Master.TablesSpec
import HuronFS.Master.HandlerSpec
import HuronFS.Master.OpenTable
import HuronFS.Master.Failure
import HuronFS.Master.Coverage
import HuronFS.Master.MessageSize
import HuronFS.Master.Replies
import HuronFS.Master.Delivery
import HuronFS.IOnode.Basic
import HuronFS.IOnode.Invariant
import HuronFS.IOnode.Eviction
import HuronFS.IOnode.Requests
import HuronFS.IOnode.WriteBack
import HuronFS.IOnode.WriteBackSafe
import HuronFS.IOnode.Messages
import HuronFS.Master.NodeFiles
import HuronFS.Master.Config
import HuronFS.Master.OpenView
import HuronFS.Protocol.Agreement
import HuronFS.Protocol.Storage
import HuronFS.Protocol.Unlink
import HuronFS.Protocol.Namespace
import HuronFS.Protocol.Migration
import HuronFS.Client.Calls
import HuronFS.Client.WireFormat
import HuronFS.Client.FileMeta
import HuronFS.Client.Coherence
import HuronFS.Client.Stream
import HuronFS.Client.StreamRefine
import HuronFS.Client.FileTables
import HuronFS.Client.FileTablesInv
import HuronFS.Client.Transfer
import HuronFS.Client.BlockCache
import HuronFS.IOnode.Serving
import HuronFS.Protocol.ReadAfterWrite
import HuronFS.Client.Growth
import HuronFS.Common.PageRing
import HuronFS.IOnode.DirtyKept
import HuronFS.IOnode.RemoteFile
import HuronFS.Protocol.ReplicaSync
import HuronFS.IOnode.PendingReplies
import HuronFS.IOnode.StorageCalls
import HuronFS.Master.WriteAllocation
import HuronFS.Lib.PrefixScan
import HuronFS.Master.Listing
import HuronFS.Client.Readdir
import HuronFS.Master.FailedOpen
import HuronFS.Master.Rename
import HuronFS.IOnode.Truncate
import HuronFS.Protocol.Truncate
import HuronFS.IOnode.Regrow
import HuronFS.Protocol.ReadProgress
import HuronFS.Lib.CBuffer
import HuronFS.Protocol.StartUp
import HuronFS.Client.QueueOps
import HuronFS.Common.Queries
import HuronFS.Client.QueueSafety
import HuronFS.Client.FuseWrite
import HuronFS.Lib.RoundRobin
import HuronFS.Master.FileNumbers
import HuronFS.Master.Placement
import HuronFS.Master.Registry
import HuronFS.Common.MemoryPool
import HuronFS.IOnode.MemoryLimit
import HuronFS.Common.Tcp
import HuronFS.Client.Position
import HuronFS.Protocol.OpenRequest
import HuronFS.Protocol.FailureReport
import HuronFS.IOnode.SwapRefused
import HuronFS.Common.RoundTrip
import HuronFS.Protocol.MasterList
import HuronFS.Protocol.WrittenBytes
import HuronFS.Protocol.Recreate
import HuronFS.Common.Sender
import HuronFS.Common.Extended
import HuronFS.Protocol.Channel
import HuronFS.Lib.Overlay
import HuronFS.Protocol.Replication
import HuronFS.IOnode.Locks
import HuronFS.IOnode.Memory
import HuronFS.Client.Stdio
import HuronFS.IOnode.Drain
import HuronFS.Common.RingNodes
import HuronFS.Protocol.PosixCalls
import HuronFS.Protocol.ManyClients
