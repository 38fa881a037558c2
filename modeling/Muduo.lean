import Muduo.Lib.Runs
import Muduo.Lib.Arrays
import Muduo.Lib.Lines
import Muduo.Lib.Format
import Muduo.Lib.Map
import Muduo.Lib.OrderedSet
import Muduo.Net.Buffer
import Muduo.Net.BufferQueue
import Muduo.Net.Channel
import Muduo.Net.EPollPoller
import Muduo.Net.PollPoller
import Muduo.Net.PollerAgreement
import Muduo.Net.TcpConnection
import Muduo.Net.TcpConnectionOutput
import Muduo.Net.TcpConnectionShutdown
import Muduo.Net.ConnectionLoop
import Muduo.Net.TcpConnectionQuiet
import Muduo.Net.TcpConnectionClose
import Muduo.Net.TcpConnectionTeardown
import Muduo.Net.EventLoop
import Muduo.Net.EventLoopQueue
import Muduo.Net.EventLoopWakeup
import Muduo.Net.TimerQueue
import Muduo.Net.TimerOwnership
import Muduo.Net.TimerCancel
import Muduo.Net.TimerRepresentation
import Muduo.Net.TimerAlarm
import Muduo.Net.Connector
import Muduo.Net.ConnectorModes
import Muduo.Net.TcpClient
import Muduo.Net.TcpClientAttempts
import Muduo.Net.ConnectorSockets
import Muduo.Net.TcpServer
import Muduo.Net.TcpServerFlow
import Muduo.Net.TcpServerLifeCycle
import Muduo.Web.TimeWheel
import Muduo.Web.ContextParse
import Muduo.Web.Server
import Muduo.Web.Segmentation
import Muduo.Web.RequestRoundTrip
import Muduo.Web.ResponseFormat
import Muduo.Web.ParseTurns
import Muduo.Web.RequestGrammar
import Muduo.Net.EPollBookkeeping
import Muduo.Net.PollPollerIndex
import Muduo.Net.EventLoopThread
import Muduo.Lib.Monitor
import Muduo.Base.BoundedBlockingQueue
import Muduo.Base.ThreadPool
import Muduo.Base.ThreadPoolStop
import Muduo.Net.TimerIdentity
import Muduo.Lib.Calendar
import Muduo.Lib.Checked
import Muduo.Lib.BinarySearch
import Muduo.Lib.Bytes
import Muduo.Base.Date
import Muduo.Base.UtcTime
import Muduo.Base.TimeZone
import Muduo.Base.ZoneFile
import Muduo.Net.BufferIntegers
import Muduo.Net.BufferSizes
import Muduo.Net.TimerDue
import Muduo.Lib.Numeral
import Muduo.Lib.Offers
import Muduo.Base.Convert
import Muduo.Base.LogStream
import Muduo.Base.LogTime
import Muduo.Base.Logging
import Muduo.Base.AppendFile
import Muduo.Base.LogFile
import Muduo.Lib.Fair
import Muduo.Lib.MonitorObject
import Muduo.Lib.Descriptors
import Muduo.Base.CountDownLatch
import Muduo.Base.BlockingQueue
import Muduo.Base.Thread
import Muduo.Net.Acceptor
import Muduo.Net.PollerDispatch
import Muduo.Net.EventDispatch
import Muduo.Web.Serving
import Muduo.Web.IdleTimer
import Muduo.Net.FlowControl
import Muduo.Web.Exchange
import Muduo.Net.SendOrder
import Muduo.Net.TimerRate
import Muduo.Net.ClientRetry
