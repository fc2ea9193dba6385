import Ksight.Rms.LedgerRace
import Ksight.Rms.LedgerAgree
import Ksight.Rms.Eject
import Ksight.Rms.Parked
import Ksight.Rms.Budget
import Ksight.Rms.Dispatch
import Ksight.Wirefisher.Conformance
import Ksight.Wirefisher.TimeScale
import Ksight.Wirefisher.Parse
import Ksight.Tcpaccd.Redirect
import Ksight.Lib.Endian
import Ksight.Tcpaccd.ByteOrder
import Ksight.Wirefisher.FlowRate
import Ksight.Wirefisher.PortHandle
import Ksight.Wirefisher.Isolation
import Ksight.Wirefisher.SharedBucket
import Ksight.Wirefisher.Uncharged
import Ksight.Wirefisher.ProcessHook
import Ksight.Wirefisher.ProcessKey
import Ksight.Netwatcher.NfTime
import Ksight.Ipcwatcher.Uds
import Ksight.Ipcwatcher.UdsReports
import Ksight.Ipcwatcher.UdsPrint
import Ksight.Ipcwatcher.UdsPending
import Ksight.ProcImage.LockEvents
import Ksight.ProcImage.ScheduleDelay
import Ksight.ProcImage.SyscallImage
import Ksight.ProcImage.SyscallBatch
import Ksight.ProcImage.TopSyscalls
import Ksight.ProcImage.ScheduleStats
import Ksight.ProcImage.PrintSchedule
import Ksight.ProcImage.ChildLifetimes
import Ksight.Ipcwatcher.Shm
import Ksight.Ipcwatcher.PhysAddr
import Ksight.Netwatcher.Packet
import Ksight.Netwatcher.LayerTimes
import Ksight.Netwatcher.Conns
import Ksight.Netwatcher.StateTimes
import Ksight.Netwatcher.RttSlot
import Ksight.Netwatcher.RttHist
import Ksight.Netwatcher.FlowTimes
import Ksight.Lib.Outputs
import Ksight.Wirefisher.SkbHandles
import Ksight.Wirefisher.FourLimiters
import Ksight.Lib.Uses
import Ksight.Wirefisher.Modules
import Ksight.CpuWatcher.CsDelay
import Ksight.Agent.Engine
import Ksight.Lib.LiuLayland
import Ksight.Rms.Admission
import Ksight.Rms.Registration
import Ksight.Rms.ExitTask
import Ksight.Rms.Fifo
import Ksight.Netwatcher.Frame
import Ksight.Netwatcher.ValidateIncoming
import Ksight.Wirefisher.Refill
import Ksight.Wirefisher.Monitored
import Ksight.Wirefisher.PortEvents
import Ksight.Wirefisher.Rules
import Ksight.Lib.Quoted
import Ksight.ProcImage.ExecArgs
import Ksight.ProcImage.ExecQuote
import Ksight.CpuWatcher.ScDelay
import Ksight.CpuWatcher.Histogram
import Ksight.CpuWatcher.Interrupts
import Ksight.CpuWatcher.ThreadTimes
import Ksight.Ipcwatcher.VmAddr
import Ksight.ProcImage.ResourceImage
import Ksight.Rms.Remain
import Ksight.Wirefisher.SmoothRate
import Ksight.Lib.Charges
import Ksight.Iotracing.Sources
import Ksight.Iotracing.Totals
import Ksight.Iotracing.Outstanding
import Ksight.Iotracing.Owners
import Ksight.Iotracing.IoSchedule
import Ksight.Lib.Increments
import Ksight.Uringtrace.Handlers
import Ksight.Uringtrace.Counts
import Ksight.Lib.OddHash
import Ksight.Uringtrace.Sampling
import Ksight.Lib.Tally
import Ksight.Netwatcher.Resets
import Ksight.Netwatcher.DnsCounts
import Ksight.Lib.Boundary
import Ksight.Netwatcher.Symbols
import Ksight.CpuWatcher.SarReports
import Ksight.ProcImage.SyscallReports
import Ksight.Wirefisher.ConfiguredLimit
import Ksight.Rms.Rest
import Ksight.Rms.Supply
import Ksight.CpuWatcher.ExecDelays
