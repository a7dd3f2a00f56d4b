import OsLabs.Lib.Transition
import OsLabs.Lib.Locks
import OsLabs.Lib.CString
import OsLabs.Lib.Block
import OsLabs.Lib.Scanf
import OsLabs.Lib.Linked
import OsLabs.Lib.Recency
import OsLabs.Lib.Fifo
import OsLabs.Lib.Counting
import OsLabs.Lib.Exclusive
import OsLabs.Lib.Handles
import OsLabs.Lib.FixedString
import OsLabs.Lib.FileSystem
import OsLabs.Lib.Rotation
import OsLabs.Proxy.Entry
import OsLabs.Proxy.Download
import OsLabs.Proxy.ResponseBody
import OsLabs.Proxy.DownloadFailures
import OsLabs.Proxy.HeaderSearch
import OsLabs.Proxy.Request
import OsLabs.Proxy.StaleBuffers
import OsLabs.Proxy.HeaderArithmetic
import OsLabs.Proxy.ParseURL
import OsLabs.Proxy.UrlParts
import OsLabs.Proxy.UpstreamRequest
import OsLabs.Proxy.Logger
import OsLabs.Proxy.LogFile
import OsLabs.Proxy.Sockets
import OsLabs.Proxy.UrlTarget
import OsLabs.Proxy.UrlRepresented
import OsLabs.Proxy.Cache
import OsLabs.Proxy.RemoveOldest
import OsLabs.Proxy.CacheInvariant
import OsLabs.Proxy.Eviction
import OsLabs.Proxy.Threads
import OsLabs.Proxy.CriticalSections
import OsLabs.Proxy.CacheRoom
import OsLabs.Proxy.LockDiscipline
import OsLabs.Proxy.Sharing
import OsLabs.Proxy.Completion
import OsLabs.Proxy.Lifetime
import OsLabs.Proxy.Waiting
import OsLabs.Proxy.Grounded
import OsLabs.Proxy.Answers
import OsLabs.Proxy.AllAnswered
import OsLabs.Proxy.UniqueUrl
import OsLabs.Proxy.Replies
import OsLabs.Sync.Queue
import OsLabs.Sync.QueueShape
import OsLabs.Sync.QueueRefinement
import OsLabs.Sync.Statements
import OsLabs.Sync.SharedQueue
import OsLabs.Sync.Sections
import OsLabs.Sync.Linearizable
import OsLabs.Sync.Interrupted
import OsLabs.Sync.CondQueue
import OsLabs.Sync.InOrder
import OsLabs.Sync.Wakeups
import OsLabs.Sync.Shutdown
import OsLabs.Sync.TryShutdown
import OsLabs.Castom.Mutex
import OsLabs.Castom.LostWakeup
import OsLabs.Castom.SpinLock
import OsLabs.Castom.Rounds
import OsLabs.SwapList.Walkers
import OsLabs.SwapList.Moves
import OsLabs.SwapList.Ownership
import OsLabs.SwapList.Swaps
import OsLabs.SwapList.Deadlock
import OsLabs.SwapList.Shutdown
import OsLabs.SwapList.Statistics
import OsLabs.Uthread.Scheduler
import OsLabs.Uthread.RoundRobin
import OsLabs.Uthread.Finishing
import OsLabs.Uthread.Stacks
import OsLabs.Uthread.Creation
import OsLabs.Mythread.Lifetime
import OsLabs.Tcp.Echo
import OsLabs.Tcp.Session
import OsLabs.Tcp.Server
import OsLabs.Udp.Echo
import OsLabs.Udp.Lockstep
import OsLabs.Mirror.ReverseFile
import OsLabs.Mirror.BlockPasses
import OsLabs.Mirror.ReverseInside
import OsLabs.Mirror.Copying
import OsLabs.Mirror.MirrorTree
import OsLabs.Mirror.Failures
import OsLabs.Mirror.Reported
import OsLabs.Mirror.Strings
import OsLabs.Mirror.RoundTrip
import OsLabs.Pipe.Counters
import OsLabs.Pipe.SharedRegion
import OsLabs.FileTool.ModeStrings
import OsLabs.FileTool.PermissionStrings
