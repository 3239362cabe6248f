import Elyra.Fanotify.Policy

set_option autoImplicit false

/-! # The fanotify controller

`_handle_event` with everything it calls, for one permission event. What the outside world answers
during the call (procfs, `fstat`, the clock, the analyzer, the kernel's write, the audit logger, and
the mode an IPC client may change at any moment) is a `World`; an answer is a value or an exception.
Only the answers of system calls whose failures are `OSError`s by construction are restricted to
those.

The statement runs in a `Frame`: the local variables of `_handle_event`, and the calls of `respond`
and `_emit_record` it has made. The record is modelled without its two clock readings
(`received_monotonic`, `response_latency_ms`), which nothing reads. -/

namespace Elyra.Fanotify

open Elyra.Python

variable {T F : Type}

/-- `FAN_ALLOW`. -/
def fanAllow : Nat := 1

/-- `FAN_DENY`. -/
def fanDeny : Nat := 2

/-- `_RESPONSE.size`: a descriptor and a response, four bytes each. -/
def responseSize : Nat := 8

/-- The fields of `FanotifyEvent` that handling it reads. -/
structure FanotifyEvent (T : Type) where
  fd : Int
  pid : Int
  path : Option PyStr
  mask : Nat
  receivedMonotonic : T
  parseError : Option PyStr

/-- `FAN_OPEN_EXEC_PERM`. -/
def fanOpenExecPerm : Nat := 0x00040000

/-- `is_exec_permission`. -/
def FanotifyEvent.isExecPermission (event : FanotifyEvent T) : Bool :=
  event.mask &&& fanOpenExecPerm != 0 && decide (0 ≤ event.fd)

/-- What `_evaluate_event` reads from `os.fstat`. -/
structure Metadata where
  regular : Bool
  size : Nat

structure World (T F : Type) where
  /-- `self.daemon_pid`. -/
  daemonPid : Int
  /-- The descriptor of the fanotify group; negative once the interface is closed. -/
  groupFd : Int
  /-- The mode when the record is begun, when a failure is decided, and when the final action is. -/
  baseMode : Mode
  failureMode : Mode
  finalMode : Mode
  /-- `os.pread(fd, 128, 0)`, or the text of its `OSError`. -/
  head : Except PyStr (List Nat)
  /-- The lines of `/proc/<pid>/status` at the `n`-th read. -/
  procStatus : Nat → Int → Except Exc (List PyStr)
  /-- `os.getcwd()` at its `n`-th use. -/
  cwd : Nat → Except Exc PyStr
  /-- `os.fstat(fd)`, or the text of its `OSError`. -/
  fstat : Except PyStr Metadata
  /-- `time.monotonic()` before and after the analysis. -/
  submitClock : T
  doneClock : T
  /-- What `analyze_open_fd_async` returns or raises, given the time that remains. -/
  analysis : T → Except Exc (Json F)
  /-- The bytes the `n`-th write to the group takes, or the text of its `OSError`. -/
  write : Nat → Except PyStr Nat
  /-- What the `n`-th call of the audit logger ends with. -/
  audit : Nat → Except Exc Unit

/-! ## The process -/

/-- `_parent_pid`, from the lines of the status file. -/
def parentPid (status : Except Exc (List PyStr)) : Except Exc (Option Int) :=
  match status with
  | .error exc =>
      if exc.isIn [.fileNotFoundError, .permissionError, .processLookupError, .valueError] then
        .ok none
      else .error exc
  | .ok lines =>
      match lines.find? fun line => (py "PPid:").isPrefixOf line with
      | none => .ok none
      | some line => .ok (intOfStr (line.drop 5))

/-- The loop of `is_process_or_descendant`; `n` counts the reads of procfs. -/
def descends (procStatus : Nat → Int → Except Exc (List PyStr)) (ancestor : Int) :
    Nat → Nat → List Int → Int → Except Exc Bool
  | 0, _, _, _ => .ok false
  | depth + 1, n, seen, current =>
      if current = ancestor then .ok true
      else if current ≤ 1 ∨ current ∈ seen then .ok false
      else
        match parentPid (procStatus n current) with
        | .error exc => .error exc
        | .ok none => .ok false
        | .ok (some parent) => descends procStatus ancestor depth (n + 1) (current :: seen) parent

/-- `is_process_or_descendant`. -/
def isProcessOrDescendant (procStatus : Nat → Int → Except Exc (List PyStr)) (pid ancestor : Int) :
    Except Exc Bool :=
  descends procStatus ancestor 64 0 [] pid

/-! ## The decision -/

/-- `value.get(key)`, an `AttributeError` when the value is no mapping. -/
def getField (value : Json F) (key : String) : Except Exc (Option (Json F)) :=
  match value with
  | .obj kvs => .ok (lookup (py key) kvs)
  | _ => .error ⟨.other (py "AttributeError"), py "object has no attribute 'get'"⟩

/-- `requested_decision, reason, analysis`. -/
structure Decision (F : Type) where
  requested : PyStr
  reason : PyStr
  analysis : Json F

section Evaluate

variable [FloatNum F]

/-- `_failure_decision`. -/
def failureDecision (p : FanotifyPolicy T) (w : World T F) (path : Option PyStr) (reason : PyStr)
    (analysis : Json F) : Except Exc (Decision F) := do
  let failPolicy ← p.getFailPolicy (w.cwd 2) path
  let analysis := if truthy analysis then analysis else .obj []
  if failPolicy = .failClosed ∧ w.failureMode = .enforcement then
    return ⟨py "DENY", reason ++ py "_FAIL_CLOSED", analysis⟩
  else
    return ⟨py "ALLOW_MONITOR", reason ++ py "_FAIL_OPEN", analysis⟩

/-- The analysis reported for a file above the size limit. -/
def deferred (size limit : Nat) : Json F :=
  .obj [(py "score", .int 0), (py "risk_score", .str (py "0/100")),
    (py "scoring_status", .str (py "DEGRADED")),
    (py "indicators", .arr [.obj [(py "rule", .str (py "LARGE_FILE_DEFERRED_FAIL_OPEN")),
      (py "evidence", .obj [(py "file_size", .int size), (py "limit", .int limit)])]])]

/-- The decisions the controller accepts from the analyzer. -/
def validDecisions : List PyStr :=
  [py "ALLOW", py "ALLOW_MONITOR", py "WARN", py "DENY"]

/-- What `_evaluate_event` makes of an analysis that came back in time. -/
def judge (p : FanotifyPolicy T) (w : World T F) (path : Option PyStr) (analysis : Json F) :
    Except Exc (Decision F) := do
  match (← getField analysis "error").filter truthy with
  | some error => failureDecision p w path (py "ANALYSIS_" ++ upper (pyStr error)) analysis
  | none =>
      let decision := upper (((← getField analysis "decision").map pyStr).getD (py "ALLOW"))
      if decision ∈ validDecisions then
        return ⟨decision, py "EXPLAINABLE_STATIC_SCORING", analysis⟩
      else failureDecision p w path (py "INVALID_ANALYZER_DECISION") analysis

variable [Zero T] [Add T] [Sub T] [LE T] [DecidableLE T]

/-- The part of `_evaluate_event` after the exclusions. -/
def evaluateFile (p : FanotifyPolicy T) (w : World T F) (event : FanotifyEvent T) :
    Except Exc (Decision F) :=
  match w.fstat with
  | .error _ => failureDecision p w event.path (py "EVENT_FSTAT_FAILED") .null
  | .ok metadata =>
      if metadata.regular = false then
        .ok ⟨py "ALLOW", py "NON_REGULAR_EXECUTION_TARGET", .obj []⟩
      else if p.maxPreexecFileBytes < metadata.size then
        .ok ⟨py "ALLOW_MONITOR", py "LARGE_FILE_DEFERRED_FAIL_OPEN",
          deferred metadata.size p.maxPreexecFileBytes⟩
      else
        let deadline := event.receivedMonotonic + p.maxResponseSeconds
        if deadline - w.submitClock ≤ 0 then
          failureDecision p w event.path (py "RESPONSE_DEADLINE_EXCEEDED") .null
        else
          match w.analysis (deadline - w.submitClock) with
          | .error exc => .error exc
          | .ok analysis =>
              if deadline ≤ w.doneClock then
                failureDecision p w event.path (py "RESPONSE_DEADLINE_EXCEEDED") analysis
              else judge p w event.path analysis

/-- Whether the event comes from the daemon or one of its descendants. -/
def ownProcess (p : FanotifyPolicy T) (w : World T F) (event : FanotifyEvent T) :
    Except Exc Bool :=
  if event.pid = w.daemonPid then .ok true
  else if p.excludeDaemonDescendants then
    isProcessOrDescendant w.procStatus event.pid w.daemonPid
  else .ok false

/-- The answer for an event that is not analysed. -/
def exempt (reason : String) : Decision F := ⟨py "ALLOW", py reason, .obj []⟩

/-- `_evaluate_event`. -/
def evaluateEvent (p : FanotifyPolicy T) (w : World T F) (event : FanotifyEvent T) :
    Except Exc (Decision F) :=
  match event.parseError.filter (· ≠ []) with
  | some parseError => failureDecision p w event.path parseError .null
  | none =>
      match ownProcess p w event with
      | .error exc => .error exc
      | .ok true => .ok (exempt "ELYRA_PROCESS_EXCLUDED")
      | .ok false =>
          match p.isExcludedPath (w.cwd 0) event.path with
          | .error exc => .error exc
          | .ok true => .ok (exempt "ELYRA_OR_SYSTEM_PATH_EXCLUDED")
          | .ok false =>
              match p.shouldMonitor (w.cwd 1) event.path with
              | .error exc => .error exc
              | .ok false => .ok (exempt "OUTSIDE_CONFIGURED_MONITORED_PATHS")
              | .ok true => evaluateFile p w event

end Evaluate

/-! ## The response -/

/-- `FanotifyInterface.respond`; the event's descriptor is closed in every case but the first two. -/
def respondResult (groupFd : Int) (write : Except PyStr Nat) (eventFd : Int) (response : Nat) :
    Except Exc Bool :=
  if eventFd < 0 then .ok false
  else if response ≠ fanAllow ∧ response ≠ fanDeny then
    .error ⟨.valueError, py "fanotify response must be FAN_ALLOW or FAN_DENY"⟩
  else if groupFd < 0 then .ok false
  else
    match write with
    | .ok n => .ok (n == responseSize)
    | .error text => .error ⟨.osError, text⟩

/-- A call of `respond`. -/
structure Response where
  fd : Int
  value : Nat
  result : Except Exc Bool

/-- The local variables of `_handle_event`, and what it has done. -/
structure Frame (F : Type) where
  record : Mapping F
  responseSent : Bool
  responseAttempted : Bool
  responses : List Response
  emitted : List (Mapping F)
  queued : List (Mapping F)

def Frame.new : Frame F where
  record := []
  responseSent := false
  responseAttempted := false
  responses := []
  emitted := []
  queued := []

/-- `record.update(items)`, as a function of the record. -/
def updated (items record : Mapping F) : Mapping F :=
  items.foldl (fun r kv => assign kv.1 kv.2 r) record

/-- `record.update(items)`. -/
def updateRecord (items : Mapping F) : Py (Frame F) Unit :=
  modify fun s => { s with record := updated items s.record }

/-- `record.setdefault(key, value)`. -/
def setDefault (key : String) (value : Json F) : Py (Frame F) Unit :=
  modify fun s =>
    if (lookup (py key) s.record).isSome then s
    else { s with record := assign (py key) value s.record }

/-- `self.interface.respond(event.fd, response)`. -/
def respond (w : World T F) (fd : Int) (response : Nat) : Py (Frame F) Bool := do
  let result := respondResult w.groupFd (w.write (← get).responses.length) fd response
  modify fun s => { s with responses := s.responses ++ [⟨fd, response, result⟩] }
  Py.eval result

/-- `_emit_record`. -/
def emitRecord (w : World T F) : Py (Frame F) Unit := do
  let n := (← get).emitted.length
  modify fun s => { s with emitted := s.emitted ++ [s.record] }
  Py.tryExcept (Py.eval (w.audit n)) [.osError, .valueError, .typeError] fun _ => pure ()
  modify fun s => { s with queued := s.queued ++ [s.record] }

/-! ## Handling an event -/

/-- `classify_open_file`. -/
def classifyOpenFile (head : Except PyStr (List Nat)) : PyStr :=
  match head with
  | .error _ => py "UNREADABLE"
  | .ok bytes =>
      if [0x7f, 0x45, 0x4c, 0x46].isPrefixOf bytes then py "ELF"
      else if [0x23, 0x21].isPrefixOf bytes then py "SCRIPT"
      else py "OTHER"

/-- `_base_record`. -/
def baseRecord (w : World T F) (event : FanotifyEvent T) : Mapping F :=
  [(py "event_type", .str (py "PRE_EXECUTION_DECISION")), (py "pid", .int event.pid),
    (py "path", (event.path.map Json.str).getD .null), (py "mask", .int event.mask),
    (py "mode", .str w.baseMode.text),
    (py "executable_kind", .str (if 0 ≤ event.fd then classifyOpenFile w.head else py "NONE"))]

/-- `value.get(key)` as a value. -/
def fieldOrNone (value : Json F) (key : String) : Except Exc (Json F) :=
  (getField value key).map fun v => v.getD .null

/-- The value passed to `respond` for a final action. -/
def responseValue (finalAction : PyStr) : Nat :=
  if finalAction = py "DENY" then fanDeny else fanAllow

/-- The name of a response value in a record. -/
def kernelResponse (value : Nat) : PyStr :=
  if value = fanDeny then py "FAN_DENY" else py "FAN_ALLOW"

/-- The dictionary the record is updated with once there is a decision. -/
def decisionItems (d : Decision F) (finalAction : PyStr) : Except Exc (Mapping F) := do
  let score ← fieldOrNone d.analysis "score"
  let riskScore ← fieldOrNone d.analysis "risk_score"
  let indicators ← getField d.analysis "indicators"
  let scoringStatus ← getField d.analysis "scoring_status"
  let scanStatus ← fieldOrNone d.analysis "scan_status"
  return [(py "requested_decision", .str d.requested), (py "final_action", .str finalAction),
    (py "kernel_response", .str (kernelResponse (responseValue finalAction))),
    (py "reason", .str d.reason),
    (py "score", score), (py "risk_score", riskScore),
    (py "indicators", indicators.getD (.arr [])),
    (py "analysis_status", scoringStatus.getD scanStatus)]

section Handle

variable [FloatNum F] [Zero T] [Add T] [Sub T] [LE T] [DecidableLE T]

/-- The body of the `try` statement of `_handle_event`. -/
def decideAndRespond (p : FanotifyPolicy T) (w : World T F) (event : FanotifyEvent T) :
    Py (Frame F) Unit := do
  let d ← Py.eval (evaluateEvent p w event)
  let finalAction := getFinalAction w.finalMode d.requested
  updateRecord (← Py.eval (decisionItems d finalAction))
  modify fun s => { s with responseAttempted := true }
  let sent ← respond w event.fd (responseValue finalAction)
  modify fun s => { s with responseSent := sent }
  updateRecord [(py "response_ok", .bool sent)]

/-- The items the `except` clause of `_handle_event` writes. -/
def failOpenItems (exc : Exc) : Mapping F :=
  [(py "requested_decision", .str (py "ALLOW_MONITOR")), (py "final_action", .str (py "ALLOW")),
    (py "kernel_response", .str (py "FAN_ALLOW")),
    (py "reason", .str (py "CONTROLLER_EXCEPTION_FAIL_OPEN")),
    (py "error_type", .str exc.cls.name)]

/-- The `except` clause of `_handle_event`. -/
def failOpen (exc : Exc) : Py (Frame F) Unit := updateRecord (failOpenItems exc)

/-- The exceptions `_handle_event` turns into an allowance. -/
def handledClasses : List ExcClass := [.osError, .runtimeError, .valueError]

/-- The answer of the `finally` clause. -/
def lastAnswer (w : World T F) (event : FanotifyEvent T) : Py (Frame F) Unit :=
  Py.tryExcept
    (do
      modify fun s => { s with responseAttempted := true }
      let sent ← respond w event.fd fanAllow
      modify fun s => { s with responseSent := sent })
    handledClasses
    fun _ => modify fun s => { s with responseSent := false }

/-- The `finally` clause of `_handle_event`. -/
def finalGuard (w : World T F) (event : FanotifyEvent T) : Py (Frame F) Unit := do
  if !(← get).responseAttempted then
    lastAnswer w event
    updateRecord [(py "response_ok", .bool (← get).responseSent),
      (py "kernel_response", .str (py "FAN_ALLOW")), (py "final_action", .str (py "ALLOW"))]
    setDefault "reason" (.str (py "FINAL_GUARD_FAIL_OPEN"))
  emitRecord w

/-- `_handle_event`. -/
def handleEvent (p : FanotifyPolicy T) (w : World T F) (event : FanotifyEvent T) :
    Py (Frame F) Unit := do
  updateRecord (baseRecord w event)
  Py.tryFinally
    (Py.tryExcept (decideAndRespond p w event) handledClasses failOpen)
    (finalGuard w event)

end Handle

end Elyra.Fanotify
