import Aatt.Lib.Transition
import Aatt.Lib.Bytes
import Aatt.Modifiers
import Aatt.Record
import Aatt.MiniTrace
import Aatt.Sequential
import Aatt.RoundTrip
import Aatt.InfoLog
import Aatt.Reservation
import Aatt.Interleaving
import Aatt.Config
import Aatt.Class
import Aatt.Instrumentation
import Aatt.ClassLinker
import Aatt.Runtime
import Aatt.Traceability
import Aatt.EntryPoints
import Aatt.Restore
import Aatt.Stacks
import Aatt.Stopping
import Aatt.Balance
import Aatt.Coverage
import Aatt.CoverageFile
import Aatt.Listeners
import Aatt.Registration
import Aatt.Unblocking
import Aatt.WriteFailures
import Aatt.ConfigMeaning
import Aatt.Interpreter
import Aatt.Defining
import Aatt.Preparation
import Aatt.ExitedThreads
import Aatt.InfoText
import Aatt.TearDown
import Aatt.Troy.ListenerInfo
import Aatt.Troy.Views
import Aatt.Troy.Replies
import Aatt.UiDriver
import Aatt.Leftover
import Aatt.LinearAlloc
import Aatt.Lib.Locks
import Aatt.Lib.BitFields
import Aatt.ThreadList
import Aatt.ThreadSteps
import Aatt.Suspension
import Aatt.Monitors
import Aatt.MonitorSafety
import Aatt.LockWords
import Aatt.ClassInit
import Aatt.ClassInitSafety
import Aatt.Leb128
import Aatt.CatchHandlers
import Aatt.CatchBlocks
import Aatt.MappingTable
import Aatt.Lib.Probing
import Aatt.HashSet
import Aatt.ClassTable
import Aatt.ClassRegistry
import Aatt.ExitStubs
