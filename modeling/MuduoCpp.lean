import MuduoCpp.Lib.Run
import MuduoCpp.Lib.Segment
import MuduoCpp.Lib.Mask
import MuduoCpp.Lib.Rotation
import MuduoCpp.Lib.Decimal
import MuduoCpp.Buffer
import MuduoCpp.BufferSizeT
import MuduoCpp.BufferQueue
import MuduoCpp.BufferCalls
import MuduoCpp.BufferWrap
import MuduoCpp.Channel
import MuduoCpp.EPollPoller
import MuduoCpp.PollerLaw
import MuduoCpp.Polling
import MuduoCpp.EventLoop
import MuduoCpp.Rounds
import MuduoCpp.Eventfd
import MuduoCpp.EventLoopThread
import MuduoCpp.Joining
import MuduoCpp.EventLoopThreadPool
import MuduoCpp.TcpConnection
import MuduoCpp.ConnectionEffects
import MuduoCpp.Registration
import MuduoCpp.Session
import MuduoCpp.SendPath
import MuduoCpp.OutputStream
import MuduoCpp.HalfClose
import MuduoCpp.Dispatch
import MuduoCpp.Callbacks
import MuduoCpp.SendFile
import MuduoCpp.Interest
import MuduoCpp.Teardown
import MuduoCpp.Draining
import MuduoCpp.FileShutdown
import MuduoCpp.FileExecution
import MuduoCpp.Accounting
import MuduoCpp.Transfer
import MuduoCpp.Echo
import MuduoCpp.InputStream
import MuduoCpp.Responder
import MuduoCpp.TcpServer
import MuduoCpp.Confinement
import MuduoCpp.ConnectionMap
import MuduoCpp.Destruction
import MuduoCpp.Ownership
import MuduoCpp.Lifetime
import MuduoCpp.RoundRobin
import MuduoCpp.InetAddress
import MuduoCpp.Names
import MuduoCpp.Acceptor
import MuduoCpp.Views
import MuduoCpp.Sessions
import MuduoCpp.Served
import MuduoCpp.Quiescence
import MuduoCpp.ServerLoops
import MuduoCpp.ServerPoll
