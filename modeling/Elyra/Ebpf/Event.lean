import Elyra.Correlation.Engine

set_option autoImplicit false

/-! # eBPF events

`EbpfEvent` of `monitor/ebpf/events.py` and the record `publish_event` of `monitor/ebpf/collector.py`
puts on the queue for it: the fields of the event and the `distinct_file_key`. The probes fill
`tgid` and `pid` from `bpf_get_current_pid_tgid`, so `pid` is the acting thread and `tgid` its
process; `sched_process_exit` fires for every thread that exits. -/

namespace Elyra.Ebpf

open Elyra.Python Elyra.Correlation

inductive EventType where
  | processExec
  | processExit
  | fileWrite
  | fileRename
  | networkConnect
  deriving DecidableEq, Repr

/-- The table `names` of `decode_event`. -/
def EventType.name : EventType → PyStr
  | .processExec => py "PROCESS_EXEC"
  | .processExit => py "PROCESS_EXIT"
  | .fileWrite => py "FILE_WRITE"
  | .fileRename => py "FILE_RENAME"
  | .networkConnect => py "NETWORK_CONNECT"

structure EbpfEvent where
  eventType : EventType
  timestampNs : Nat
  pid : Nat
  tgid : Nat
  ppid : Nat
  uid : Nat
  comm : PyStr
  executableIdentifier : Option PyStr := none
  exitCode : Option Int := none
  device : Option Nat := none
  inode : Option Nat := none
  destinationAddress : Option PyStr := none
  destinationPort : Option Nat := none
  probePathCapability : PyStr := py "IDENTIFIER_ONLY"

section Record

variable {F : Type}

def optText : Option PyStr → Json F
  | none => .null
  | some s => .str s

def optInt : Option Int → Json F
  | none => .null
  | some n => .int n

/-- `to_dict`. -/
def EbpfEvent.toDict (e : EbpfEvent) : Mapping F :=
  [(py "event_type", .str e.eventType.name),
    (py "timestamp_ns", .int e.timestampNs),
    (py "pid", .int e.pid),
    (py "tgid", .int e.tgid),
    (py "ppid", .int e.ppid),
    (py "uid", .int e.uid),
    (py "comm", .str e.comm),
    (py "executable_identifier", optText e.executableIdentifier),
    (py "exit_code", optInt e.exitCode),
    (py "device", optInt (e.device.map Int.ofNat)),
    (py "inode", optInt (e.inode.map Int.ofNat)),
    (py "destination_address", optText e.destinationAddress),
    (py "destination_port", optInt (e.destinationPort.map Int.ofNat)),
    (py "probe_path_capability", .str e.probePathCapability)]

/-- The text of `record["distinct_file_key"]`. -/
def EbpfEvent.distinctFileKey (e : EbpfEvent) : Option PyStr :=
  match e.device, e.inode with
  | some device, some inode => some (intText device ++ py ":" ++ intText inode)
  | _, _ => none

/-- The record `publish_event` queues for an accepted event. -/
def EbpfEvent.record (e : EbpfEvent) : Mapping F :=
  e.toDict ++ [(py "distinct_file_key", optText e.distinctFileKey)]

/-- The kind the correlation engine reads from a record. -/
def EventType.kind : EventType → Kind
  | .processExec => .processExec
  | .processExit => .processExit
  | .fileWrite => .fileWrite
  | .fileRename => .fileRename
  | .networkConnect => .networkConnect

theorem lookup_eventType (e : EbpfEvent) :
    lookup (py "event_type") (e.record : Mapping F) = some (.str e.eventType.name) := by
  simp [EbpfEvent.record, EbpfEvent.toDict, lookup]

variable [FloatNum F]

theorem kindOf_record (e : EbpfEvent) : kindOf (e.record : Mapping F) = e.eventType.kind := by
  have htext : textOr (e.record : Mapping F) "event_type" [] = e.eventType.name := by
    simp only [textOr, lookup_eventType]
    rfl
  rw [kindOf, htext]
  cases e.eventType <;> decide

/-- The `tgid` of a record is no falsy value. -/
theorem getTruthy_tgid (e : EbpfEvent) (h : 0 < e.tgid) :
    getTruthy (e.record : Mapping F) "tgid" = some (.int e.tgid) := by
  have hlook : lookup (py "tgid") (e.record : Mapping F) = some (.int e.tgid) := by
    simp only [EbpfEvent.record, EbpfEvent.toDict, List.cons_append]
    rfl
  rw [getTruthy, hlook]
  simp [Option.filter, truthy]
  omega

/-- An event of a process is keyed by its thread group, whichever thread acted. -/
theorem pidOf_record (e : EbpfEvent) (h : 0 < e.tgid) :
    pidOf (e.record : Mapping F) = .ok e.tgid := by
  rw [pidOf, getTruthy_tgid e h]
  rfl

theorem intOr_of_lookup {m : Mapping F} {key : String} {n : Int}
    (h : lookup (py key) m = some (.int n)) (d : Int) : ∃ k, intOr m key d = .ok k := by
  unfold intOr getTruthy
  rw [h]
  by_cases hn : n = 0
  · exact ⟨d, by simp [Option.filter, truthy, hn]⟩
  · exact ⟨n, by simp [Option.filter, truthy, hn, pyInt]⟩

/-- The numeric fields of a record convert. -/
theorem intOr_record (e : EbpfEvent) (d : Int) :
    (∃ n, intOr (e.record : Mapping F) "ppid" d = .ok n) ∧
      (∃ n, intOr (e.record : Mapping F) "uid" d = .ok n) ∧
      ∃ n, intOr (e.record : Mapping F) "timestamp_ns" d = .ok n := by
  refine ⟨intOr_of_lookup (n := e.ppid) ?_ d, intOr_of_lookup (n := e.uid) ?_ d,
    intOr_of_lookup (n := e.timestampNs) ?_ d⟩
  · rfl
  · rfl
  · rfl

end Record

end Elyra.Ebpf
