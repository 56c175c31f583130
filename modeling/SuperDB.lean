import SuperDB.Go.Map
import SuperDB.Go.BucketIndex
import SuperDB.Go.Strings
import SuperDB.Go.Unicode
import SuperDB.Go.Strconv
import SuperDB.Go.Loop
import SuperDB.Go.Lists
import SuperDB.Go.Positions
import SuperDB.Go.Sort
import SuperDB.Engine.Fold
import SuperDB.Engine.Types
import SuperDB.Engine.Parser
import SuperDB.Engine.FastPath
import SuperDB.Engine.Mutate
import SuperDB.Engine.Query
import SuperDB.Engine.Select
import SuperDB.Engine.Group
import SuperDB.Engine.Statement
import SuperDB.Engine.Database
import SuperDB.Engine.Verify.Core
import SuperDB.Engine.Verify.Read
import SuperDB.Engine.Verify.Step
import SuperDB.Engine.Verify.Edit
import SuperDB.Engine.Verify.Change
import SuperDB.Engine.Verify.Wellformed
import SuperDB.Engine.Verify.IndexExact
import SuperDB.Engine.Verify.OrderInv
import SuperDB.Engine.Verify.KeyInv
import SuperDB.Engine.Verify.FastInv
import SuperDB.Engine.Verify.Abort
import SuperDB.Engine.Verify.Clone
import SuperDB.Engine.Verify.Quiet
import SuperDB.Go.Proc
import SuperDB.Engine.Bind
import SuperDB.Server.Session
import SuperDB.Server.Verify.ErrorReply
import SuperDB.Server.World
import SuperDB.Server.Verify.Discipline
import SuperDB.Server.Verify.Serializable
import SuperDB.Go.Span
import SuperDB.Go.Utf8
import SuperDB.Cluster.Ranges
import SuperDB.Cluster.Verify.Partition
import SuperDB.Cluster.Verify.Join
import SuperDB.Server.Verify.Snapshot
import SuperDB.Go.Trim
import SuperDB.Engine.Verify.Replay
import SuperDB.Engine.Verify.Reread
import SuperDB.Engine.Verify.RowCap
import SuperDB.Engine.Verify.Repeat
import SuperDB.Engine.Verify.Idle
import SuperDB.Engine.Image
import SuperDB.Engine.Verify.Image
import SuperDB.Server.Verify.WalOrder
import SuperDB.Server.DataDir
import SuperDB.Server.Verify.Restarts
import SuperDB.Go.Decimal
import SuperDB.Go.Rounding
import SuperDB.Go.FloatText
import SuperDB.Engine.Verify.Bind
import SuperDB.Engine.Verify.Literal
import SuperDB.Cluster.Membership
import SuperDB.Cluster.Verify.Removal
import SuperDB.Go.Binary
import SuperDB.Storage.Format
import SuperDB.Go.Json
import SuperDB.Storage.Files
import SuperDB.Storage.Verify.Frames
import SuperDB.Storage.Verify.Damage
import SuperDB.Storage.Verify.SnapshotFile
import SuperDB.Cluster.State
import SuperDB.Cluster.Verify.Directory
import SuperDB.Cluster.Verify.Fencing
import SuperDB.Cluster.Verify.Restore
import SuperDB.Cluster.Forward
import SuperDB.Cluster.Verify.Forwarded
import SuperDB.Cluster.Verify.Replicas
import SuperDB.Cluster.Verify.Restart
import SuperDB.Wire.Frames
import SuperDB.Wire.Verify.Frames
import SuperDB.Remote.Session
import SuperDB.Remote.Server
import SuperDB.Remote.Verify.Protocol
import SuperDB.Remote.Verify.Auth
import SuperDB.Engine.Load
import SuperDB.Engine.Verify.Load
import SuperDB.Engine.InsertRows
import SuperDB.Engine.Verify.RowList
import SuperDB.Go.Words
import SuperDB.Engine.Verify.MutationForm
import SuperDB.Engine.Verify.InvalidWhere
import SuperDB.Engine.Verify.Uncancelled
import SuperDB.Go.Heap
import SuperDB.Engine.Verify.FastRows
import SuperDB.Engine.Verify.FastScan
import SuperDB.Engine.Verify.TopK
import SuperDB.Engine.Verify.Gather
import SuperDB.Engine.Verify.MaxRows
import SuperDB.Engine.Verify.Window
import SuperDB.Engine.Verify.Counting
import SuperDB.Engine.Verify.Projection
import SuperDB.Engine.Verify.Lookup
import SuperDB.Engine.Verify.Distinct
import SuperDB.Engine.Verify.IndexLookup
import SuperDB.Engine.Verify.Like
import SuperDB.Engine.Verify.SelectList
import SuperDB.Engine.Verify.TwoParsers
import SuperDB.Engine.Verify.Insertion
import SuperDB.Go.FloatInt
import SuperDB.Engine.Verify.Copying
import SuperDB.Engine.Verify.BoundRows
import SuperDB.Go.OrderedMap
import SuperDB.Go.Trace
import SuperDB.Client.Conn
import SuperDB.Client.Verify.Demux
import SuperDB.Client.Verify.Failure
import SuperDB.Engine.Verify.Ordering
import SuperDB.Engine.Verify.SyntheticKeys
import SuperDB.Engine.Verify.Mutations
import SuperDB.Cluster.Transport
import SuperDB.Cluster.Verify.Transport
