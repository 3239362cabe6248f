import Elyra.Posix.Files
import Elyra.Python.Sha256
import Elyra.Response.Targets

set_option autoImplicit false
set_option linter.unusedSectionVars false

/-! # The response engine, call by call

The functions of `Targets` once more, as programs over the calls they make of the operating system, of
the other components, and of the engine's own tables, where a region under the lock is one call. Here
any call can fail, at any place; what stays out of sight is the reading of a file, which is one call,
and the text of a poll's timeout. `str` and `asdict` are calls as well, because they raise where a value
nests deeper than the interpreter's stack has room for.

`os.close` frees the number also where it raises, as Linux does. Inside `bind_state`'s lock region
several descriptors may be closed, and a failure of the first of them ends the region
(`swapBinding`). -/

namespace Elyra.Response.Steps

open Elyra.Python Elyra.Posix Elyra.Posix.Program Elyra.Correlation

variable {F : Type} {α : Type}

/-! ## Calls -/

inductive Call (F : Type) where
  /-- `str(value)`, of a value of the state. -/
  | text (value : Json F)
  /-- `result.to_dict()`. -/
  | copy (result : Mapping F)
  /-- `(root / "stat").read_text()`. -/
  | readStat (pid : Int)
  | readlinkExe (pid : Int)
  /-- `os.stat(root / "exe")`: the device and the inode. -/
  | statExe (pid : Int)
  /-- `root.stat().st_uid`. -/
  | statRoot (pid : Int)
  | lstat (path : PyStr)
  /-- `os.open(target, O_RDONLY | O_CLOEXEC | O_NOFOLLOW)`. -/
  | openFile (path : PyStr)
  | fstat (fd : Nat)
  /-- `os.read` until it returns nothing. -/
  | readAll (fd : Nat)
  | lseek (fd : Nat)
  /-- `str(target.resolve(strict=True))`. -/
  | resolve (path : PyStr)
  | close (fd : Nat)
  | pidfdOpen (pid : Int)
  | sendSignal (pidfd : Nat) (s : Signal)
  /-- `_wait_pidfd`, with the time the policy gives the process after that signal. -/
  | waitPidfd (pidfd : Nat) (s : Signal)
  /-- `self.quarantine.quarantine_file(...)`; the record, as a dictionary. -/
  | quarantineFile (file : FileIdentity) (reason : PyStr) (relatedPid : Option Int)
      (rules : List (Mapping F)) (processInfo : Mapping F)
  /-- `audit_logger.record` and `event_sink`. -/
  | record (r : ActionResult F)
  | monotonic
  /-- `_clock` and `_id_factory`. -/
  | stamp
  /-- The first lock region of `execute_recommendation`. -/
  | enter (state : Mapping F)
  /-- Its second lock region. -/
  | commit (state : Mapping F) (a : Action) (previous : Int) (status : Status)
  /-- The lock region of `bind_state`. -/
  | bind (binding : BoundTarget)
  /-- `self._bindings.get(id)`. -/
  | getBinding (id : PyStr)
  /-- `self._bindings.pop(id, None)`. -/
  | popBinding (id : PyStr)
  /-- `list(self._bindings)`. -/
  | bindingKeys
  /-- `execution_correlation.record_action_result`. -/
  | recordActionResult (pid : Int) (correlationId : PyStr) (result : Mapping F)

abbrev Call.Answer : Call F → Type
  | .readStat _ => PyStr
  | .readlinkExe _ => PyStr
  | .statExe _ => Nat × Nat
  | .statRoot _ => Nat
  | .lstat _ => Stat
  | .openFile _ => Nat
  | .fstat _ => Stat
  | .readAll _ => Bytes
  | .resolve _ => PyStr
  | .pidfdOpen _ => Nat
  | .waitPidfd _ _ => Bool
  | .quarantineFile _ _ _ _ _ => Mapping F
  | .monotonic => Nat
  | .stamp => Stamp F
  | .enter _ => Entered F
  | .getBinding _ => Option BoundTarget
  | .popBinding _ => Option BoundTarget
  | .bindingKeys => List PyStr
  | _ => Unit

abbrev interface (F : Type) : Interface where
  Call := Call F
  Answer := Call.Answer
  Failure := Exc

abbrev Prog (F α : Type) := Program (interface F) Exc α

/-- A call that raises when it fails. -/
def ask (c : Call F) : Prog F c.Answer :=
  .call c fun
    | .ok a => .done a
    | .error e => .raise e

def lift (x : Except Exc α) : Prog F α :=
  match x with
  | .ok a => .done a
  | .error e => .raise e

/-- `raise ResponseSafetyError(text)`. -/
def refuse (text : PyStr) : Prog F α := .raise (safetyError text)

/-- `try: p except classes as exc: handler`. -/
def catching (classes : List ExcClass) (p : Prog F α) (handler : Exc → Prog F α) : Prog F α :=
  p.orElse fun e => if e.isIn classes then handler e else .raise e

/-- `try: p finally: last`. -/
def andFinally (p : Prog F α) (last : Prog F Unit) : Prog F α := do
  let a ← p.orElse fun e => do
    last
    .raise e
  last
  return a

/-! ## Inspecting a process -/

/-- `text.split()`; `word` is the current word, last character first. -/
def splitWords (word : PyStr) : PyStr → List PyStr
  | [] => if word = [] then [] else [word.reverse]
  | c :: s =>
      if isSpace c then
        if word = [] then splitWords [] s else word.reverse :: splitWords [] s
      else splitWords (c :: word) s

/-- `text[text.rfind(")") + 2:]`. -/
def afterClosing (text : PyStr) : Option PyStr :=
  if 41 ∈ text then some ((text.reverse.takeWhile (· ≠ 41)).reverse.drop 1) else none

def indexError : ExcClass := .other (py "IndexError")

/-- The start time in the text of `/proc/PID/stat`. The kernel prints it without a sign. -/
def startTimeTicks (text : PyStr) : Except Exc Nat :=
  match afterClosing text with
  | none => .error ⟨.valueError, py "malformed proc stat record"⟩
  | some rest =>
      match (splitWords [] rest)[19]? with
      | none => .error ⟨indexError, py "list index out of range"⟩
      | some field =>
          match intOfStr field with
          | none => .error ⟨.valueError, py "invalid literal for int()"⟩
          | some n => .ok n.toNat

/-- `str(n)` has few enough digits. -/
abbrev TextFits (n : Int) : Prop := (natText n.natAbs).length ≤ maxStrDigits

/-- `str(pid)`. -/
def pidText (pid : Int) : Except Exc PyStr :=
  if TextFits pid then .ok (intText pid)
  else .error ⟨.valueError, py "Exceeds the limit for integer string conversion"⟩

/-- The `try` block of `ProcessInspector.capture`. -/
def readProcess (pid : Int) : Prog F ProcessIdentity := do
  let text : PyStr ← ask (.readStat pid)
  let ticks ← lift (startTimeTicks text)
  let path : PyStr ← ask (.readlinkExe pid)
  let exe : Nat × Nat ← ask (.statExe pid)
  let uid : Nat ← ask (.statRoot pid)
  return {
    pid := pid
    startTimeTicks := ticks
    executablePath := path
    executableDevice := exe.1
    executableInode := exe.2
    uid := uid }

/-- `ProcessInspector.capture`. -/
def capture (pid : Int) : Prog F ProcessIdentity :=
  if pid ≤ 0 then refuse (py "process PID must be positive")
  else do
    let text ← lift (pidText pid)
    catching [.fileNotFoundError, .processLookupError, .osError, .valueError, indexError]
      (readProcess pid) fun e =>
        if e.isIn [.fileNotFoundError, .processLookupError] then
          refuse (py "process no longer exists: " ++ text)
        else refuse (py "cannot capture process identity for PID " ++ text ++ py ": " ++ e.text)

/-! ## Opening a file -/

/-- The fields that `_open_file_identity` compares before and after the file is read. -/
def sameFile (opened after : Stat) : Bool :=
  after.size == opened.size && after.mtime == opened.mtime && after.ctime == opened.ctime &&
    after.inode == opened.inode

/-- The second `try` block of `_open_file_identity`. -/
def readIdentity (path : PyStr) (metadata : Stat) (fd : Nat) : Prog F FileIdentity := do
  let opened : Stat ← ask (.fstat fd)
  if opened.device ≠ metadata.device ∨ opened.inode ≠ metadata.inode then
    refuse (py "response target identity changed while opening")
  else do
    let data : Bytes ← ask (.readAll fd)
    ask (.lseek fd)
    let after : Stat ← ask (.fstat fd)
    if sameFile opened after then do
      let resolved : PyStr ← ask (.resolve path)
      return {
        path := resolved
        device := opened.device
        inode := opened.inode
        sizeBytes := opened.size
        mtimeNs := opened.mtime
        ctimeNs := opened.ctime
        sha256 := sha256 data }
    else refuse (py "response target changed while hashing")

/-- `_open_file_identity`. -/
def openFileIdentity (path : PyStr) : Prog F (FileIdentity × Nat) := do
  let metadata : Stat ← catching [.osError] (ask (.lstat path)) fun e =>
    refuse (py "cannot inspect response target file: " ++ path ++ py ": " ++ e.text)
  if metadata.kind ≠ .regular then
    refuse (py "response target must be a non-symlink regular file")
  else do
    let fd : Nat ← catching [.osError] (ask (.openFile path)) fun e =>
      refuse (py "cannot securely open response target: " ++ path ++ py ": " ++ e.text)
    let identity ← (readIdentity path metadata fd).orElse fun e => do
      ask (.close fd)
      .raise e
    return (identity, fd)

/-! ## Binding -/

section Engine

variable [FloatNum F]

def FileIdentity.toDict (f : FileIdentity) : Mapping F :=
  [(py "path", .str f.path), (py "device", .int f.device), (py "inode", .int f.inode),
    (py "size_bytes", .int f.sizeBytes), (py "mtime_ns", .int f.mtimeNs),
    (py "ctime_ns", .int f.ctimeNs), (py "sha256", .str f.sha256)]

/-- `try: p except ResponseSafetyError: None`. -/
def unlessRefused (p : Prog F α) : Prog F (Option α) :=
  catching [.responseSafetyError] (do
    let a ← p
    return some a) fun _ => .done none

/-- The process `bind_state` captures. -/
def captureBound : Option Int → Prog F (Option ProcessIdentity)
  | none => .done none
  | some pid => unlessRefused (capture pid)

/-- The file `bind_state` opens. -/
def openBound : Option PyStr → Prog F (Option (FileIdentity × Nat))
  | none => .done none
  | some path => unlessRefused (openFileIdentity path)

/-- What `bind_state` returns. -/
def bound (id : PyStr) (process : Option ProcessIdentity) (file : Option FileIdentity) : Mapping F :=
  [(py "correlation_id", .str id),
    (py "process", (process.map fun p => Json.obj p.toDict).getD .null),
    (py "file", (file.map fun f => Json.obj (FileIdentity.toDict f)).getD .null)]

/-- `str(state.get(key))`, where there is something to read; the text itself is `correlationId` or
    `recommendation`. -/
def readField (state : Mapping F) (key : String) : Prog F Unit :=
  match getTruthy state key with
  | none => .done ()
  | some value => ask (.text value)

/-- `bind_state`. -/
def bindState (state : Mapping F) : Prog F (Mapping F) := do
  let id := correlationId state
  readField state "correlation_id"
  if id = [] then refuse (py "correlation_id is required before response binding")
  else do
    let pid ← lift ((pid state).mapError PyExc.toExc)
    let process ← captureBound pid
    let file ← openBound (path state)
    if process = none ∧ file = none then
      refuse (py "neither process nor file identity could be bound")
    else do
      let now : Nat ← ask .monotonic
      ask (.bind
        { correlationId := id
          pid := pid.getD 0
          process := process
          file := file.map Prod.fst
          fileFd := file.map Prod.snd
          boundAtMonotonic := now })
      return bound id process (file.map Prod.fst)

/-- `os.close`, where there is something to close. -/
def closeFd : Option Nat → Prog F Unit
  | none => .done ()
  | some fd => ask (.close fd)

/-- `release_binding`. -/
def releaseBinding (id : PyStr) : Prog F Unit := do
  let binding : Option BoundTarget ← ask (.popBinding id)
  closeFd (binding.bind BoundTarget.fileFd)

/-- `release_binding(str(state.get("correlation_id") or ""))`. -/
def releaseState (state : Mapping F) : Prog F Unit := do
  readField state "correlation_id"
  releaseBinding (correlationId state)

def releaseAll : List PyStr → Prog F Unit
  | [] => .done ()
  | key :: keys => do
      releaseBinding key
      releaseAll keys

/-- `close`. -/
def close : Prog F Unit := do
  let keys : List PyStr ← ask .bindingKeys
  releaseAll keys

/-! ## Terminating -/

/-- What the process and the interpreter are. -/
structure Platform where
  /-- `os.getpid()`. -/
  ownPid : Int
  hasPidfdOpen : Bool
  hasPidfdSendSignal : Bool

/-- The refusals of `terminate` before it opens a pidfd. -/
def Platform.checkTermination (h : Platform) (policy : ResponsePolicy)
    (expected : ProcessIdentity) : Except Exc Unit :=
  if expected.pid ∈ policy.protectedPids ∨ expected.pid = h.ownPid then
    .error (safetyError (py "refusing to terminate protected PID " ++ intText expected.pid))
  else if protectedPath policy expected.executablePath then
    .error (safetyError (py "refusing to terminate an ELYRA protected executable"))
  else if policy.requirePidfd ∧ h.hasPidfdOpen = false then
    .error (safetyError (py "pidfd_open is unavailable; safe termination is refused"))
  else if h.hasPidfdSendSignal = false then
    .error (safetyError (py "pidfd_send_signal is unavailable; safe termination is refused"))
  else .ok ()

/-- The second signal of `terminate`. -/
def escalate (policy : ResponsePolicy) (pidfd : Nat) : Prog F (Mapping F) :=
  if policy.escalateToSigkill = false then refuse (py "process did not exit after SIGTERM")
  else do
    ask (.sendSignal pidfd .sigkill)
    let exited : Bool ← ask (.waitPidfd pidfd .sigkill)
    if exited then return terminateDetails false (some (py "SIGKILL")) true
    else refuse (py "process did not exit after SIGKILL")

/-- The `try` block of `terminate`. -/
def signalProcess (policy : ResponsePolicy) (expected : ProcessIdentity) (pidfd : Nat) :
    Prog F (Mapping F) := do
  let current ← capture expected.pid
  if sameIdentity expected current then do
    ask (.sendSignal pidfd .sigterm)
    let exited : Bool ← ask (.waitPidfd pidfd .sigterm)
    if exited then return terminateDetails false (some (py "SIGTERM")) false
    else escalate policy pidfd
  else refuse (py "PID identity changed after correlation; termination was refused")

/-- `PidfdProcessController.terminate`. -/
def terminate (h : Platform) (policy : ResponsePolicy) (expected : ProcessIdentity) :
    Prog F (Mapping F) := do
  lift (h.checkTermination policy expected)
  .call (.pidfdOpen expected.pid) fun
    | .ok (pidfd : Nat) => andFinally (signalProcess policy expected pidfd) (ask (.close pidfd))
    | .error e =>
        if e.isIn [.processLookupError] then .done (terminateDetails true none false)
        else if e.isIn [.osError] then
          refuse (py "cannot open pidfd for PID " ++ intText expected.pid ++ py ": " ++ e.text)
        else .raise e

/-! ## Executing a recommendation -/

/-- `_binding`. -/
def bindingOf (state : Mapping F) : Prog F BoundTarget := do
  readField state "correlation_id"
  let binding : Option BoundTarget ← ask (.getBinding (correlationId state))
  match binding with
  | none => refuse (py "response target was not bound to this correlation")
  | some binding => do
      let pid ← lift ((pid state).mapError PyExc.toExc)
      if binding.pid ≠ 0 ∧ binding.pid ≠ pid.getD 0 then
        refuse (py "bound PID does not match the current correlation state")
      else return binding

/-- `_result`. -/
def resultOf (state : Mapping F) (report : Report F) : Prog F (ActionResult F) := do
  let stamp : Stamp F ← ask .stamp
  readField state "correlation_id"
  let r ← lift ((result stamp state report).mapError PyExc.toExc)
  ask (.copy r.toDict)
  ask (.record r)
  return r

/-- `_execute_terminate`. -/
def executeTerminate (h : Platform) (policy : ResponsePolicy) (state : Mapping F) :
    Prog F (ActionResult F) :=
  catching [.responseSafetyError]
    (do
      let binding ← bindingOf state
      match binding.process with
      | none => refuse (py "no process identity is bound for termination")
      | some p => do
          let details ← terminate h policy p
          resultOf state {
            requested := recommendation state
            executed := Action.terminate.text
            status := .succeeded
            reason := py "The correlation-bound process was terminated using a pidfd"
            details := (py "process_identity", .obj p.toDict) :: details })
    fun exc => resultOf state {
      requested := recommendation state
      executed := Action.terminate.text
      status := .refused
      reason := py "Safe process termination requirements were not satisfied"
      failure := some exc.text }

/-- The termination `_execute_quarantine` begins with. -/
def terminateFirst (h : Platform) (policy : ResponsePolicy) :
    Option ProcessIdentity → Prog F (Json F)
  | none => .done .null
  | some p => do
      let details ← terminate h policy p
      return .obj details

/-- `self.quarantine.quarantine_file(...)`, of the bound file. -/
def quarantineBound (state : Mapping F) (binding : BoundTarget) (file : FileIdentity) :
    Prog F (Mapping F) := do
  let score ← lift ((score state).mapError PyExc.toExc)
  ask (.quarantineFile file (py "Stage 11 correlated response: score=" ++ intText score)
    (if binding.pid = 0 then none else some binding.pid) (rules state)
    [(py "correlation_id", .str binding.correlationId),
      (py "process_identity", (binding.process.map fun p => Json.obj p.toDict).getD .null)])

/-- The `try` block of `_execute_quarantine`. -/
def quarantineTarget (h : Platform) (policy : ResponsePolicy) (state : Mapping F) :
    Prog F (ActionResult F) := do
  let binding ← bindingOf state
  match binding.file with
  | none => refuse (py "no file identity is bound for quarantine")
  | some file =>
      if protectedPath policy file.path then
        refuse (py "ELYRA protected paths cannot be quarantined")
      else do
        let termination ← terminateFirst h policy binding.process
        let record ← quarantineBound state binding file
        let r ← resultOf state {
          requested := recommendation state
          executed := Action.quarantine.text
          status := .succeeded
          reason := py "The correlation-bound file was placed in protected quarantine"
          details := [(py "termination", termination), (py "quarantine_record", .obj record)] }
        releaseState state
        return r

/-- `_execute_quarantine`. -/
def executeQuarantine (h : Platform) (policy : ResponsePolicy) (state : Mapping F) :
    Prog F (ActionResult F) :=
  catching [.responseSafetyError, .quarantineError] (quarantineTarget h policy state) fun exc => do
    let r ← resultOf state {
      requested := recommendation state
      executed := Action.quarantine.text
      status := .refused
      reason := py "Safe quarantine requirements were not satisfied"
      failure := some exc.text }
    releaseState state
    return r

/-- A branch of `execute_recommendation` that only reports. -/
def reportAction (automatic : Bool) (state : Mapping F) (a : Action) : Prog F (ActionResult F) := do
  let report ← lift (act automatic state a (.declined []))
  resultOf state report

/-- The branch of `execute_recommendation` that performs the action. -/
def perform (h : Platform) (policy : ResponsePolicy) (state : Mapping F) (a : Action) :
    Prog F (ActionResult F) :=
  match a with
  | .terminate =>
      if policy.automaticRuntimeActions then executeTerminate h policy state
      else reportAction false state a
  | .quarantine =>
      if policy.automaticRuntimeActions then executeQuarantine h policy state
      else reportAction false state a
  | .deny => do
      ask (.text ((lookup (py "status") state).getD .null))
      reportAction policy.automaticRuntimeActions state .deny
  | a => reportAction policy.automaticRuntimeActions state a

/-- The texts `execute_recommendation` reads before its first lock region. -/
def readTexts (state : Mapping F) : Prog F Unit := do
  readField state "recommended_action"
  match action state with
  | none => .done ()
  | some _ => readField state "correlation_id"

/-- `execute_recommendation`. -/
def executeRecommendation (h : Platform) (policy : ResponsePolicy) (state : Mapping F) :
    Prog F (ActionResult F) := do
  readTexts state
  let entered : Entered F ← ask (.enter state)
  match entered with
  | .answered report => resultOf state report
  | .acting a previous => do
      let r ← perform h policy state a
      ask (.commit state a previous r.status)
      return r

/-! ## The consumer threads -/

/-- The `bind_state` of `_execute_correlated_response`; a refusal is logged. -/
def bindFirst (bind : Bool) (state : Mapping F) : Prog F Unit :=
  if bind ∧ (getTruthy state "correlation_id").isSome then
    catching [.responseSafetyError] (do
      let _ ← bindState state
      return ()) fun _ => .done ()
  else .done ()

/-- The end of `_execute_correlated_response`. -/
def recordResult (state : Mapping F) (r : ActionResult F) : Prog F Unit :=
  match getTruthy state "pid", getTruthy state "correlation_id" with
  | some pid, some correlationId => do
      let pid ← lift ((pyInt pid).mapError PyExc.toExc)
      ask (.text correlationId)
      ask (.copy r.toDict)
      ask (.recordActionResult pid (pyStr correlationId) r.toDict)
  | _, _ => .done ()

/-- The state of an accepted result. -/
def acceptedState (result : Mapping F) : Option (Mapping F) :=
  match lookup (py "accepted") result, lookup (py "state") result with
  | some (.bool true), some (.obj state) => some state
  | _, _ => none

/-- `_execute_correlated_response`. -/
def executeCorrelatedResponse (h : Platform) (policy : ResponsePolicy) (result : Mapping F)
    (bind : Bool) : Prog F Unit :=
  match acceptedState result with
  | none => .done ()
  | some state => do
      bindFirst bind state
      let r ← executeRecommendation h policy state
      recordResult state r

end Engine

/-! ## The lock region of `bind_state` -/

/-- The bindings, and the descriptors the region has closed. -/
structure Region where
  bindings : Dict PyStr BoundTarget
  closed : List Nat := []

namespace Region

/-- `os.close`; `closing` is what it raises for a descriptor. -/
def closeFd (closing : Nat → Option Exc) : Option Nat → Py Region Unit
  | none => pure ()
  | some fd => do
      modify fun r => { r with closed := r.closed ++ [fd] }
      match closing fd with
      | none => pure ()
      | some exc => Py.eval (.error exc)

/-- `self._bindings.pop(key, None)`, and the descriptor of what is popped is closed. -/
def drop (closing : Nat → Option Exc) (key : PyStr) : Py Region Unit := do
  let r ← get
  set { r with bindings := r.bindings.pop key }
  closeFd closing ((r.bindings.get? key).bind BoundTarget.fileFd)

/-- `while len(self._bindings) >= 1024`; every round drops one binding. -/
def evict (closing : Nat → Option Exc) : Nat → Py Region Unit
  | 0 => pure ()
  | fuel + 1 => do
      let r ← get
      if r.bindings.size < 1024 then pure ()
      else
        match oldestKey r.bindings with
        | none => pure ()
        | some key => do
            drop closing key
            evict closing fuel

/-- The region. -/
def swapBinding (closing : Nat → Option Exc) (binding : BoundTarget) : Py Region Unit := do
  drop closing binding.correlationId
  let r ← get
  evict closing r.bindings.size
  modify fun r => { r with bindings := r.bindings.set binding.correlationId binding }

end Region

end Elyra.Response.Steps
