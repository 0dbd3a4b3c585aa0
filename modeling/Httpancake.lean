import Httpancake.Lib.Bytes
import Httpancake.Lib.Lines
import Httpancake.Network.Buffer
import Httpancake.Lib.Program
import Httpancake.Network.BufferQueue
import Httpancake.Http.OnMessage
import Httpancake.Http.Serve
import Httpancake.Http.Shapes
import Httpancake.Http.Endings
import Httpancake.Http.Faults
import Httpancake.Http.Termination
import Httpancake.Http.Delivery
import Httpancake.Http.WellFormed
import Httpancake.Http.Segmentation
import Httpancake.Logging.FixBuffer
import Httpancake.Logging.LogStream
import Httpancake.Logging.NonBlockingLog
import Httpancake.Logging.Bounds
import Httpancake.Logging.LogOrder
import Httpancake.Lib.OrderedSet
import Httpancake.Lib.Heap
import Httpancake.Lib.HeapIndex
import Httpancake.Reactor.TimerQueue
import Httpancake.Reactor.TimerOwnership
import Httpancake.Reactor.Poller
import Httpancake.Reactor.EventLoop
import Httpancake.Network.TcpConnection
import Httpancake.Network.ConnSystem
import Httpancake.Network.OutputStream
import Httpancake.Network.HandleClose
import Httpancake.Http.CloseAfterSend
import Httpancake.Http.Closings
import Httpancake.Http.Pipelining
import Httpancake.Http.Delimiting
import Httpancake.Lib.Paths
import Httpancake.Http.DocumentRoot
import Httpancake.Http.IdleTimeout
import Httpancake.Network.Outcomes
import Httpancake.Server.ConnView
import Httpancake.Server.Removal
import Httpancake.Server.Silence
import Httpancake.Server.Ownership
import Httpancake.Server.TableAccess
import Httpancake.Lib.LoopThreads
import Httpancake.Server.Threads
import Httpancake.Server.Confinement
import Httpancake.Network.HalfClose
import Httpancake.Reactor.ArmedTimers
import Httpancake.Reactor.Cancellation
import Httpancake.Reactor.Timerfd
import Httpancake.Reactor.ExpiredBatch
import Httpancake.Reactor.Registration
import Httpancake.Server.Names
import Httpancake.Reactor.EventLoopThread
import Httpancake.Logging.Construction
import Httpancake.Http.RequestLine
import Httpancake.Http.HeaderFields
import Httpancake.Http.KeepAlive
import Httpancake.Http.FileServing
import Httpancake.Network.Storage
import Httpancake.Network.Shrink
import Httpancake.Logging.Integers
import Httpancake.Logging.Spares
import Httpancake.Reactor.AddTimer
import Httpancake.Lib.Observation
import Httpancake.Http.Answers
import Httpancake.Network.Delivered
import Httpancake.Server.Dispatch
import Httpancake.Server.Callbacks
import Httpancake.Server.Conversation
import Httpancake.Lib.Allocation
import Httpancake.Server.Descriptors
import Httpancake.Reactor.EventLoopThreadPool
import Httpancake.Server.Placement
import Httpancake.Server.Survival
import Httpancake.Server.Conservation
import Httpancake.Server.Drained
import Httpancake.Reactor.Schedule
import Httpancake.Http.Replies
import Httpancake.Server.Replies
import Httpancake.Server.IdleWheel
import Httpancake.Logging.Logger
import Httpancake.Logging.LogLines
import Httpancake.Http.LogTexts
import Httpancake.Server.LogStatements
