import Gallus.Lib.Trans
import Gallus.Basic
import Gallus.Lib.Ring
import Gallus.Cbuffer.Record
import Gallus.Cbuffer.Fifo
import Gallus.Lib.StableQueue
import Gallus.Lib.Words
import Gallus.Callout.Task
import Gallus.Callout.TimedQueue
import Gallus.StrUtils.Parse
import Gallus.StrUtils.Split
import Gallus.StrUtils.Number
import Gallus.StrUtils.Loose
import Gallus.StrUtils.Shape
import Gallus.Cbuffer.Calls
import Gallus.Cbuffer.Exchange
import Gallus.Cbuffer.Disposal
import Gallus.Cbuffer.Awakened
import Gallus.Cbuffer.Notices
import Gallus.Cbuffer.Bounds
import Gallus.Cbuffer.Fatal
import Gallus.Cbuffer.Single
import Gallus.Cbuffer.Move
import Gallus.Cbuffer.Adjust
import Gallus.Cbuffer.Gettable
import Gallus.Qmuxer.Poll
import Gallus.Qmuxer.Notified
import Gallus.Qmuxer.Ready
import Gallus.Qmuxer.Released
import Gallus.Qmuxer.Registered
import Gallus.Gstate.Tracker
import Gallus.Gstate.WaitFor
import Gallus.Thread.Record
import Gallus.Thread.Moves
import Gallus.Thread.Runs
import Gallus.Pipeline.Stage
import Gallus.Pipeline.Quiescence
import Gallus.Pipeline.Life
import Gallus.Pipeline.Requests
import Gallus.Pipeline.Rounds
import Gallus.Pipeline.Creation
import Gallus.Pipeline.Rollback
import Gallus.Pipeline.Waits
import Gallus.Pipeline.Loops
import Gallus.Pipeline.Restart
import Gallus.Callout.Threads
import Gallus.Callout.Effects
import Gallus.Callout.Foreign
import Gallus.Callout.Places
import Gallus.Callout.Calm
import Gallus.Callout.Alone
import Gallus.Callout.Due
import Gallus.Callout.Repeat
import Gallus.Callout.Room
import Gallus.Callout.Cancel
import Gallus.Callout.Wakeup
import Gallus.Lib.Tally
import Gallus.Callout.Words
import Gallus.Callout.Roles
import Gallus.Callout.Owner
import Gallus.Callout.Undeleted
import Gallus.Callout.Dead
import Gallus.Callout.Answer
import Gallus.Callout.Once
import Gallus.Callout.MainLoop
import Gallus.Callout.Oversleep
import Gallus.Callout.Runnables
import Gallus.Callout.Refused
import Gallus.Callout.Dispatch
import Gallus.StrUtils.Token
import Gallus.StrUtils.Lexeme
import Gallus.StrUtils.Escape
import Gallus.StrUtils.Trim
import Gallus.StrUtils.Quoted
import Gallus.Checkcert.Config
import Gallus.Checkcert.Line
import Gallus.Lib.Rules
import Gallus.Checkcert.Verdict
import Gallus.Checkcert.History
import Gallus.Lib.Block
import Gallus.Lib.Lease
import Gallus.Lib.Ledger
import Gallus.Dstring.Text
import Gallus.Dstring.Refines
import Gallus.Dstring.Failures
import Gallus.Dstring.Concat
import Gallus.Pools.Pool
import Gallus.Pools.Exclusive
import Gallus.Pools.Runner
import Gallus.Pools.Handover
import Gallus.Pools.Poolable
import Gallus.Modules.Table
import Gallus.Modules.Passes
import Gallus.Statistic.Deviation
import Gallus.Session.Fgets
import Gallus.Session.Tls
import Gallus.Session.Poll
import Gallus.Modules.Waits
import Gallus.Pools.Whole
import Gallus.Pools.Depth
import Gallus.Pools.Names
import Gallus.Pools.Sweep
import Gallus.Lib.Checked
import Gallus.Chrono.Convert
import Gallus.StrUtils.Bignum
import Gallus.Callout.StageRollback
import Gallus.Session.Lifetime
import Gallus.Checkcert.Reject
import Gallus.Checkcert.Freshness
import Gallus.Mainloop.ParentExit
import Gallus.Lib.Answers
import Gallus.Lib.MapImpl
import Gallus.Hash.Table
import Gallus.Hash.WellFormed
import Gallus.Hash.Refines
import Gallus.Hash.Enumerate
import Gallus.Hashmap.Ops
import Gallus.Hashmap.Refines
import Gallus.Hashmap.OverHash
import Gallus.Lib.Mutex
import Gallus.Logger.Calls
import Gallus.Logger.Lock
import Gallus.Signal.Thread
import Gallus.Signal.Notify
import Gallus.Signal.Registers
import Gallus.Modules.Ends
import Gallus.Mainloop.LifeCycle
import Gallus.Mainloop.Signals
import Gallus.Numa.Blocks
import Gallus.Session.Sockets
import Gallus.Lock.Critical
