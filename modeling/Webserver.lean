import Webserver.ByteQueue
import Webserver.OutputStream
import Webserver.Interest
import Webserver.DownNotification
import Webserver.FinalState
import Webserver.TimerArming
import Webserver.LogStop
import Webserver.FunctorQueue
import Webserver.LoopQuit
import Webserver.Wakeup
import Webserver.LoopThread
import Webserver.CrossThread
import Webserver.SendOverloads
import Webserver.TimerContainer
import Webserver.GracefulShutdown
import Webserver.SenderOrder
import Webserver.ConnectionNames
import Webserver.TcpServer
import Webserver.Registry
import Webserver.Teardown
import Webserver.Ownership
import Webserver.Receiving
import Webserver.EventDispatch
import Webserver.LogFile
import Webserver.LogRolling
import Webserver.RolledFiles
import Webserver.LogRecord
import Webserver.TimerFrame
import Webserver.TimerFiring
import Webserver.TimerIds
import Webserver.StaleIds
import Webserver.TimerCancel
import Webserver.TimerPosting
import Webserver.TrueTime
import Webserver.BufferHistory
import Webserver.LogRecycling
import Webserver.IntegerText
import Webserver.StreamBounds
import Webserver.DailyRolling
import Webserver.Acceptor
import Webserver.RoundRobin
import Webserver.TimerDelay
import Webserver.LogPipeline
import Webserver.StreamLink
import Webserver.TimerMemory
import Webserver.Draining
import Webserver.FunctorLatency
import Webserver.ChannelLifetime
import Webserver.CloseAccounts
import Webserver.LoopStart
import Webserver.AddressText
import Webserver.Calendar
import Webserver.Descriptors
import Webserver.LogNames
import Webserver.PollFairness
import Webserver.TimerRate
import Webserver.CallbackOrder
import Webserver.ServerStart
import Webserver.ConnectionFrame
import Webserver.SharedLoop
import Webserver.TimeStampText
import Webserver.FlowControl
import Webserver.LateWakeup
