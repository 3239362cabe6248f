import Elyra.Correlation.LateBinding
import Elyra.Correlation.PidReuse
import Elyra.Correlation.ThreadExit
import Elyra.Audit.Tamper
import Elyra.Audit.Rotation
import Elyra.Audit.Coverage
import Elyra.Response.Ranks
import Elyra.Service.Containment
import Elyra.Fanotify.Descriptors
import Elyra.Quarantine.Atomic
import Elyra.Service.IpcClient
import Elyra.Service.Isolation
import Elyra.Service.Effects
import Elyra.Response.Once
import Elyra.Response.Reported
import Elyra.Response.Descriptors
import Elyra.Quarantine.Store
import Elyra.Quarantine.Consistent
import Elyra.Signatures.Rollback
import Elyra.Monitor.Windows
import Elyra.Fanotify.Loop
import Elyra.Correlation.Reach
import Elyra.Python.JsonLimits
import Elyra.Audit.Escape
import Elyra.Audit.Report
import Elyra.Audit.Opening
import Elyra.Scoring.Monotone
import Elyra.Response.Protection
import Elyra.Service.Schema
import Elyra.Service.Answers
import Elyra.Quarantine.Listing
import Elyra.Quarantine.Uncaught
import Elyra.Service.ManualScan
import Elyra.Audit.Payload
import Elyra.Quarantine.Audited
import Elyra.Fanotify.Events
import Elyra.Monitor.NativeRecords
import Elyra.Monitor.WatchRoot
import Elyra.Monitor.AnalysisSound
import Elyra.Scoring.Loading
import Elyra.Analyzer.PeSound
import Elyra.Service.ScanFile
import Elyra.Analyzer.EntropyStream
import Elyra.Measurement.Calibration
import Elyra.Measurement.Dataset
import Elyra.Fanotify.Marks
import Elyra.Update.Updater
import Elyra.Update.Checker
import Elyra.Ebpf.KernelHeaders
import Elyra.Ebpf.Renames
import Elyra.Ebpf.Descendants
import Elyra.Ebpf.Views
import Elyra.Quarantine.Concurrent
import Elyra.Ebpf.Ancestry
import Elyra.Quarantine.Copying
import Elyra.Service.Slots
import Elyra.Service.DaemonState
import Elyra.Scoring.Evidence
