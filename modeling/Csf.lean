import Csf.Lib.Owners
import Csf.Lib.Places
import Csf.Lib.Reach
import Csf.Lib.Window
import Csf.Lib.Barrier
import Csf.Lib.Strings
import Csf.Lib.Tagged
import Csf.Lib.Lists
import Csf.Pipeline.Submit
import Csf.Pipeline.Route
import Csf.Pipeline.Complete
import Csf.Pipeline.Connection
import Csf.Pipeline.Queues
import Csf.Pipeline.Life
import Csf.Pipeline.Lengths
import Csf.Pipeline.Order
import Csf.Pipeline.Eviction
import Csf.System.Machine
import Csf.System.Frame
import Csf.System.Routing
import Csf.System.Flow
import Csf.System.Lengths
import Csf.System.Eviction
import Csf.System.Expiry
import Csf.System.Conserve
import Csf.System.Fifo
import Csf.System.Loop
import Csf.System.Counter
import Csf.System.Refusal
import Csf.System.Connectionless
import Csf.System.Admission
import Csf.System.Conn
import Csf.System.Signal
import Csf.System.Evict
import Csf.System.Shutdown
import Csf.System.Tid
import Csf.Pool.Model
import Csf.Pool.Ownership
import Csf.Pool.Counts
import Csf.Pool.Failure
import Csf.Tcp.Model
import Csf.Tcp.Buffer
import Csf.Tcp.Events
import Csf.Lib.StableSort
import Csf.Config.Model
import Csf.Config.Order
import Csf.Config.Sections
import Csf.Config.Settings
import Csf.Config.Items
import Csf.Tcp.Write
import Csf.Tcp.Writev
import Csf.Tcp.Resume
import Csf.Startup.Model
import Csf.Startup.Chains
import Csf.Startup.Jump
import Csf.Startup.Barrier
import Csf.Monitor.Model
import Csf.Monitor.Table
import Csf.Monitor.Stat
import Csf.Monitor.Select
import Csf.Ini.Model
import Csf.Ini.Agree
import Csf.Ini.Load
import Csf.Ini.Split
import Csf.Log.Model
import Csf.Log.Rotation
import Csf.Log.Record
import Csf.Lib.Linked
import Csf.Queue.Tailq
import Csf.Queue.Links
import Csf.System.Links
import Csf.System.Pointers
import Csf.Queue.Modules
import Csf.Lib.RedBlack
import Csf.Tree.Model
import Csf.Tree.Rotate
import Csf.Tree.Insert
import Csf.Tree.Search
import Csf.Tree.Stages
import Csf.System.Attend
import Csf.System.Locks
import Csf.System.Stall
import Csf.System.Conveyor
import Csf.System.Quiet
import Csf.Supervisor.Model
import Csf.Supervisor.OneWorker
import Csf.Supervisor.Replace
