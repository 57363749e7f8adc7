import FastPort.Sessions.Accounting
import FastPort.Sessions.Drain
import FastPort.Sessions.Callbacks
import FastPort.Sessions.SendOrder
import FastPort.Sessions.Receive
import FastPort.Sessions.RIOTerminal
import FastPort.Sessions.SelfDelimiting
import FastPort.Services.IOServiceRest
import FastPort.Services.RIOServiceRest
import FastPort.Services.RIOServiceMode
import FastPort.Commons.Container
import FastPort.Commons.DirectWrite
import FastPort.Commons.RingTotal
import FastPort.Commons.TimerLifetime
import FastPort.Commons.TimerCallers
import FastPort.Commons.TimerStates
import FastPort.Commons.TimerDeadlock
import FastPort.Commons.TimerDueTime
import FastPort.Core.AcceptBacklog
import FastPort.Core.FrameGrammar
import FastPort.Core.IOSocketConnector
import FastPort.Core.RioDisjoint
import FastPort.Core.RioRegistration
import FastPort.Sessions.SendMessage
import FastPort.Sessions.RIORegistry
import FastPort.Sessions.RIOBackpressure
import FastPort.Sessions.WellBehaved
import FastPort.Sessions.Wakeup
import FastPort.Sessions.ReceiveLoop
import FastPort.Sessions.Overlapped
import FastPort.Sessions.AfterDisconnect
import FastPort.Sessions.Agreement
import FastPort.Commons.ScopedTimer
import FastPort.Commons.ThreadPoolDestruction
import FastPort.Services.StatsSampler
import FastPort.Benchmark.MultiSessionCompletion
import FastPort.TestClient.MetricsCollector
import FastPort.TestClient.TestSession
import FastPort.Benchmark.BenchmarkStats
import FastPort.Sessions.ServerLink
