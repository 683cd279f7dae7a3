import ProfHalide.Lib.Numbering
import ProfHalide.Lib.Chain
import ProfHalide.Lib.Machine
import ProfHalide.Lib.Slots
import ProfHalide.Lib.CString
import ProfHalide.Lib.Rounding
import ProfHalide.Lib.Csv
import ProfHalide.Lib.Tally
import ProfHalide.Halide.Threads
import ProfHalide.Halide.Binding
import ProfHalide.Halide.Walk
import ProfHalide.Pass.Shape
import ProfHalide.Pass.Erasure
import ProfHalide.Pass.Scoping
import ProfHalide.Pass.LoopIds
import ProfHalide.Pass.Frame
import ProfHalide.Pass.Nesting
import ProfHalide.Pass.Stacks
import ProfHalide.Pass.Accounting
import ProfHalide.Pass.HostCalls
import ProfHalide.Pass.Balance
import ProfHalide.Pass.Tables
import ProfHalide.Pass.Inherit
import ProfHalide.Pass.FuncIds
import ProfHalide.Pass.CurrentFunc
import ProfHalide.Runtime.Calls
import ProfHalide.Runtime.PipelineList
import ProfHalide.Runtime.SoundList
import ProfHalide.Runtime.Billing
import ProfHalide.Runtime.Sampler
import ProfHalide.Runtime.Markers
import ProfHalide.Runtime.Runs
import ProfHalide.Runtime.Repeats
import ProfHalide.Runtime.FailedStart
import ProfHalide.Runtime.Workers
import ProfHalide.Runtime.Idle
import ProfHalide.Runtime.StartRace
import ProfHalide.Runtime.StopRequest
import ProfHalide.Runtime.Alt
import ProfHalide.Perfctr.Threads
import ProfHalide.Perfctr.TimeApi
import ProfHalide.Perfctr.PapiApi
import ProfHalide.Perfctr.Callers
import ProfHalide.Perfctr.Exhaustion
import ProfHalide.Perfctr.EventSets
import ProfHalide.Perfctr.Library
import ProfHalide.Perfctr.Timers
import ProfHalide.Perfctr.Sessions
import ProfHalide.Perfctr.Config
import ProfHalide.Perfctr.Events
import ProfHalide.Perfctr.Startup
import ProfHalide.Perfctr.Counters
import ProfHalide.Perfctr.PerfApi
import ProfHalide.Report.Writer
import ProfHalide.Report.Reader
import ProfHalide.Report.Agreement
import ProfHalide.Report.Regions
import ProfHalide.Report.Totals
import ProfHalide.Report.Labels
import ProfHalide.Target.Feature
import ProfHalide.Target.Strings
import ProfHalide.Lib.Transducer
import ProfHalide.Pass.Attribution
import ProfHalide.Pass.SerialCalls
import ProfHalide.Pass.Registrations
import ProfHalide.Pass.Duties
import ProfHalide.Runtime.Metering
import ProfHalide.Runtime.Pool
import ProfHalide.Report.Rows
import ProfHalide.Report.ThreadRows
import ProfHalide.Report.Spending
import ProfHalide.Report.Programs
import ProfHalide.Report.Tasks
