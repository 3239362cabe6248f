import Elyra.Python.JsonDepth
import Elyra.Response.Engine

set_option autoImplicit false
set_option linter.unusedSectionVars false

/-! # Bound targets

The destructive half of `response/engine.py`: binding a process and a file to a correlation, and
terminating or quarantining what is bound. A call is a statement over a `Frame`, the engine's two
tables and what the call has done so far: the signals sent, the processes that exited on them, the
files moved into quarantine. What the operating system, the quarantine manager and the audit logger
answer during a call is its `Host`; the manager may have moved the file where it raises. So is what the
interpreter's stack has room for: `str` and `asdict` raise `RecursionError` beyond it. -/

namespace Elyra.Response

open Elyra.Python Elyra.Correlation

variable {F : Type}

structure ProcessIdentity where
  pid : Int
  startTimeTicks : Nat
  executablePath : PyStr
  executableDevice : Nat
  executableInode : Nat
  uid : Nat
  deriving DecidableEq, Repr

structure FileIdentity where
  path : PyStr
  device : Nat
  inode : Nat
  sizeBytes : Nat
  mtimeNs : Nat
  ctimeNs : Nat
  sha256 : PyStr
  deriving DecidableEq, Repr

structure BoundTarget where
  correlationId : PyStr
  pid : Int
  process : Option ProcessIdentity
  file : Option FileIdentity
  fileFd : Option Nat
  boundAtMonotonic : Nat
  deriving DecidableEq, Repr

/-- The fields of `ResponsePolicy` that a response reads. -/
structure ResponsePolicy where
  automaticRuntimeActions : Bool
  escalateToSigkill : Bool
  requirePidfd : Bool
  protectedPids : List Int
  protectedPathPrefixes : List PyStr

inductive Signal where
  | sigterm
  | sigkill
  deriving DecidableEq, Repr

/-- What `os.pidfd_open` does. -/
inductive PidfdAnswer where
  | opened
  | processLookupError
  | osError (text : PyStr)
  deriving DecidableEq, Repr

/-- What a call meets. -/
structure Host (F : Type) where
  /-- `os.getpid()`. -/
  ownPid : Int
  hasPidfdOpen : Bool
  hasPidfdSendSignal : Bool
  pidfdOpen : Int → PidfdAnswer
  /-- `process_inspector.capture`; the text of its `ResponseSafetyError`. -/
  capture : Int → Except PyStr ProcessIdentity
  /-- What `pidfd_send_signal` raises. -/
  sendSignal : Signal → Option Exc
  /-- `_wait_pidfd`: the process has exited in time. -/
  exits : Signal → Bool
  /-- `_open_file_identity`; the text of its `ResponseSafetyError`. -/
  openFile : PyStr → Except PyStr (FileIdentity × Nat)
  /-- `quarantine_file`: whether it has moved the file, and the record, as a dictionary. -/
  quarantineFile : FileIdentity → Bool × Except Exc (Mapping F)
  /-- The `n`th call of `audit_logger.record` during this call. -/
  audit : Nat → Except Exc Unit
  monotonic : Nat
  stamp : Stamp F
  /-- The containers inside each other that `str` and `asdict` get through. -/
  room : Nat

/-- What a call does to the outside. -/
inductive Effect where
  | signalled (p : ProcessIdentity) (s : Signal)
  /-- The process exited on the signals. -/
  | terminated (p : ProcessIdentity)
  | moved (f : FileIdentity)
  deriving DecidableEq, Repr

structure Tables where
  bindings : Dict PyStr BoundTarget := Dict.empty
  ranks : Ranks := Dict.empty

structure Frame where
  tables : Tables
  /-- The calls of `audit_logger.record` so far. -/
  audits : Nat := 0
  effects : List Effect := []
  /-- The descriptors closed. -/
  closed : List Nat := []

namespace Frame

def emit (f : Frame) (e : Effect) : Frame := { f with effects := f.effects ++ [e] }

def closeFd (f : Frame) (fd : Option Nat) : Frame := { f with closed := f.closed ++ fd.toList }

def setBindings (f : Frame) (bindings : Dict PyStr BoundTarget) : Frame :=
  { f with tables := { f.tables with bindings := bindings } }

def setRanks (f : Frame) (ranks : Ranks) : Frame := { f with tables := { f.tables with ranks := ranks } }

end Frame

def safetyError (text : PyStr) : Exc := ⟨.responseSafetyError, text⟩

/-- `raise exc`. -/
def raise {α : Type} (exc : Exc) : Py Frame α := Py.eval (.error exc)

/-! ## Terminating -/

/-- `_same_identity`. -/
def sameIdentity (expected current : ProcessIdentity) : Bool :=
  expected.pid == current.pid && expected.startTimeTicks == current.startTimeTicks &&
    expected.executableDevice == current.executableDevice &&
    expected.executableInode == current.executableInode

/-- `path == prefix or path.startswith(prefix.rstrip("/") + "/")`. -/
def isUnder (path start : PyStr) : Bool :=
  path == start || ((start.reverse.dropWhile (· == 47)).reverse ++ [47]).isPrefixOf path

/-- `_protected_path`, and the test `terminate` makes of the executable. -/
def protectedPath (policy : ResponsePolicy) (path : PyStr) : Bool :=
  policy.protectedPathPrefixes.any (isUnder (normpath path))

/-- `signal.pidfd_send_signal`. -/
def sendSignal (h : Host F) (p : ProcessIdentity) (s : Signal) : Py Frame Unit :=
  match h.sendSignal s with
  | some exc => raise exc
  | none => modify (·.emit (.signalled p s))

/-- The dictionary `terminate` returns. -/
def terminateDetails (gone : Bool) (signal : Option PyStr) (escalated : Bool) : Mapping F :=
  [(py "process_already_exited", .bool gone),
    (py "signal", (signal.map Json.str).getD .null), (py "escalated", .bool escalated)]

/-- The refusals of `terminate` before it opens a pidfd. -/
def checkTermination (h : Host F) (policy : ResponsePolicy) (expected : ProcessIdentity) :
    Except Exc Unit :=
  if expected.pid ∈ policy.protectedPids ∨ expected.pid = h.ownPid then
    .error (safetyError (py "refusing to terminate protected PID " ++ intText expected.pid))
  else if protectedPath policy expected.executablePath then
    .error (safetyError (py "refusing to terminate an ELYRA protected executable"))
  else if policy.requirePidfd ∧ h.hasPidfdOpen = false then
    .error (safetyError (py "pidfd_open is unavailable; safe termination is refused"))
  else if h.hasPidfdSendSignal = false then
    .error (safetyError (py "pidfd_send_signal is unavailable; safe termination is refused"))
  else .ok ()

/-- `inspector.capture` and the comparison with the bound process. -/
def checkIdentity (h : Host F) (expected : ProcessIdentity) : Except Exc Unit :=
  match h.capture expected.pid with
  | .error text => .error (safetyError text)
  | .ok current =>
      if sameIdentity expected current then .ok ()
      else .error (safetyError (py "PID identity changed after correlation; termination was refused"))

/-- The signals of `terminate`. -/
def signalProcess (h : Host F) (policy : ResponsePolicy) (expected : ProcessIdentity) :
    Py Frame (Mapping F) := do
  sendSignal h expected .sigterm
  if h.exits .sigterm then do
    modify (·.emit (.terminated expected))
    return terminateDetails false (some (py "SIGTERM")) false
  else if policy.escalateToSigkill = false then
    raise (safetyError (py "process did not exit after SIGTERM"))
  else do
    sendSignal h expected .sigkill
    if h.exits .sigkill then do
      modify (·.emit (.terminated expected))
      return terminateDetails false (some (py "SIGKILL")) true
    else raise (safetyError (py "process did not exit after SIGKILL"))

/-- `PidfdProcessController.terminate`. -/
def terminate (h : Host F) (policy : ResponsePolicy) (expected : ProcessIdentity) :
    Py Frame (Mapping F) := do
  Py.eval (checkTermination h policy expected)
  match h.pidfdOpen expected.pid with
  | .processLookupError => return terminateDetails true none false
  | .osError text =>
      raise (safetyError (py "cannot open pidfd for PID " ++ intText expected.pid ++ py ": " ++ text))
  | .opened => do
      Py.eval (checkIdentity h expected)
      signalProcess h policy expected

section Engine

variable [FloatNum F]

/-! ## Texts and copies -/

def recursionError : Exc := ⟨.other (py "RecursionError"), []⟩

/-- `str(value)`, for what it raises: an integer in the value may be beyond the digit limit. -/
def Host.readText (h : Host F) (value : Json F) : Except Exc Unit :=
  if value.encodable true = false then .error PyExc.valueError.toExc
  else if h.room < value.depth then .error recursionError
  else .ok ()

/-- `str(state.get(key))`, where there is something to read. -/
def Host.readField (h : Host F) (state : Mapping F) (key : String) : Except Exc Unit :=
  match getTruthy state key with
  | none => .ok ()
  | some value => h.readText value

/-- `result.to_dict()`, for what it raises. -/
def Host.copy (h : Host F) (r : ActionResult F) : Except Exc Unit :=
  if h.room < (Json.obj r.toDict).depth then .error recursionError else .ok ()

/-! ## Bindings -/

/-- The binding with the smallest time, the first of them. -/
def oldestKey (bindings : Dict PyStr BoundTarget) : Option PyStr :=
  (bindings.items.foldl (fun (best : Option (PyStr × BoundTarget)) kv =>
    match best with
    | none => some kv
    | some b => if kv.2.boundAtMonotonic < b.2.boundAtMonotonic then some kv else some b) none).map
    Prod.fst

/-- `while len(self._bindings) >= 1024`: the oldest binding goes. -/
def evict : Nat → Frame → Frame
  | 0, f => f
  | fuel + 1, f =>
      if f.tables.bindings.size < 1024 then f
      else
        match oldestKey f.tables.bindings with
        | none => f
        | some key =>
            evict fuel ((f.setBindings (f.tables.bindings.pop key)).closeFd
              ((f.tables.bindings.get? key).bind BoundTarget.fileFd))

/-- The process `bind_state` captures. -/
def boundProcess (h : Host F) (pid : Option Int) : Option ProcessIdentity :=
  pid.bind fun n => (h.capture n).toOption

/-- The file `bind_state` opens. -/
def boundFile (h : Host F) (state : Mapping F) : Option (FileIdentity × Nat) :=
  (path state).bind fun p => (h.openFile p).toOption

/-- `bind_state`. -/
def bindState (h : Host F) (state : Mapping F) : Py Frame Unit := do
  let id := correlationId state
  Py.eval (h.readField state "correlation_id")
  if id = [] then
    raise (safetyError (py "correlation_id is required before response binding"))
  else do
    let pid ← Py.eval ((pid state).mapError PyExc.toExc)
    let process := boundProcess h pid
    let file := boundFile h state
    if process = none ∧ file = none then
      raise (safetyError (py "neither process nor file identity could be bound"))
    else
      let binding : BoundTarget :=
        { correlationId := id
          pid := pid.getD 0
          process := process
          file := file.map Prod.fst
          fileFd := file.map Prod.snd
          boundAtMonotonic := h.monotonic }
      modify fun f =>
        let previous := f.tables.bindings.get? id
        let f := (f.setBindings (f.tables.bindings.pop id)).closeFd (previous.bind BoundTarget.fileFd)
        let f := evict f.tables.bindings.size f
        f.setBindings (f.tables.bindings.set id binding)

/-- `release_binding`. -/
def releaseBinding (id : PyStr) : Py Frame Unit :=
  modify fun f =>
    (f.setBindings (f.tables.bindings.pop id)).closeFd
      ((f.tables.bindings.get? id).bind BoundTarget.fileFd)

/-- `_binding`. -/
def bindingOf (state : Mapping F) : Py Frame BoundTarget := do
  let f ← get
  match f.tables.bindings.get? (correlationId state) with
  | none => raise (safetyError (py "response target was not bound to this correlation"))
  | some binding => do
      let pid ← Py.eval ((pid state).mapError PyExc.toExc)
      if binding.pid ≠ 0 ∧ binding.pid ≠ pid.getD 0 then
        raise (safetyError (py "bound PID does not match the current correlation state"))
      else return binding

/-! ## Executing a recommendation -/

/-- `_result`. -/
def resultOf (h : Host F) (state : Mapping F) (report : Report F) : Py Frame (ActionResult F) := do
  Py.eval (h.readField state "correlation_id")
  let r ← Py.eval ((result h.stamp state report).mapError PyExc.toExc)
  Py.eval (h.copy r)
  let f ← get
  set { f with audits := f.audits + 1 }
  Py.eval (h.audit f.audits)
  return r

def ProcessIdentity.toDict (p : ProcessIdentity) : Mapping F :=
  [(py "pid", .int p.pid), (py "start_time_ticks", .int p.startTimeTicks),
    (py "executable_path", .str p.executablePath),
    (py "executable_device", .int p.executableDevice),
    (py "executable_inode", .int p.executableInode), (py "uid", .int p.uid)]

/-- `_execute_terminate`. -/
def executeTerminate (h : Host F) (policy : ResponsePolicy) (state : Mapping F) :
    Py Frame (ActionResult F) :=
  Py.tryExcept
    (do
      let binding ← bindingOf state
      match binding.process with
      | none => raise (safetyError (py "no process identity is bound for termination"))
      | some p => do
          let details ← terminate h policy p
          resultOf h state {
            requested := recommendation state
            executed := Action.terminate.text
            status := .succeeded
            reason := py "The correlation-bound process was terminated using a pidfd"
            details := (py "process_identity", .obj p.toDict) :: details })
    [.responseSafetyError]
    fun exc => resultOf h state {
      requested := recommendation state
      executed := Action.terminate.text
      status := .refused
      reason := py "Safe process termination requirements were not satisfied"
      failure := some exc.text }

/-- The termination `_execute_quarantine` begins with. -/
def terminateFirst (h : Host F) (policy : ResponsePolicy) (process : Option ProcessIdentity) :
    Py Frame (Json F) :=
  match process with
  | none => return .null
  | some p => do
      let details ← terminate h policy p
      return .obj details

/-- `self.quarantine.quarantine_file(...)`; its reason holds the score. -/
def quarantineBound (h : Host F) (state : Mapping F) (file : FileIdentity) : Py Frame (Mapping F) := do
  let _ ← Py.eval ((score state).mapError PyExc.toExc)
  let (moved, answer) := h.quarantineFile file
  if moved then modify (·.emit (.moved file))
  Py.eval answer

/-- `_execute_quarantine`. -/
def executeQuarantine (h : Host F) (policy : ResponsePolicy) (state : Mapping F) :
    Py Frame (ActionResult F) :=
  Py.tryExcept
    (do
      let binding ← bindingOf state
      match binding.file with
      | none => raise (safetyError (py "no file identity is bound for quarantine"))
      | some file =>
          if protectedPath policy file.path then
            raise (safetyError (py "ELYRA protected paths cannot be quarantined"))
          else do
            let termination ← terminateFirst h policy binding.process
            let record ← quarantineBound h state file
            let r ← resultOf h state {
              requested := recommendation state
              executed := Action.quarantine.text
              status := .succeeded
              reason := py "The correlation-bound file was placed in protected quarantine"
              details := [(py "termination", termination), (py "quarantine_record", .obj record)] }
            releaseBinding (correlationId state)
            return r)
    [.responseSafetyError, .quarantineError]
    fun exc => do
      let r ← resultOf h state {
        requested := recommendation state
        executed := Action.quarantine.text
        status := .refused
        reason := py "Safe quarantine requirements were not satisfied"
        failure := some exc.text }
      releaseBinding (correlationId state)
      return r

/-- The branch of `execute_recommendation` that performs the action. -/
def perform (h : Host F) (policy : ResponsePolicy) (state : Mapping F) (a : Action) :
    Py Frame (ActionResult F) :=
  match a with
  | .terminate =>
      if policy.automaticRuntimeActions then executeTerminate h policy state
      else do
        let report ← Py.eval (act false state a (.declined []))
        resultOf h state report
  | .quarantine =>
      if policy.automaticRuntimeActions then executeQuarantine h policy state
      else do
        let report ← Py.eval (act false state a (.declined []))
        resultOf h state report
  | .deny => do
      Py.eval (h.readText ((lookup (py "status") state).getD .null))
      let report ← Py.eval (act policy.automaticRuntimeActions state .deny (.declined []))
      resultOf h state report
  | a => do
      let report ← Py.eval (act policy.automaticRuntimeActions state a (.declined []))
      resultOf h state report

/-- The texts `execute_recommendation` reads before it enters its first lock region. -/
def Host.readTexts (h : Host F) (state : Mapping F) : Except Exc Unit := do
  h.readField state "recommended_action"
  if (action state).isSome then h.readField state "correlation_id" else .ok ()

/-- `execute_recommendation`. -/
def executeRecommendation (h : Host F) (policy : ResponsePolicy) (state : Mapping F) :
    Py Frame (ActionResult F) := do
  Py.eval (h.readTexts state)
  let f ← get
  match enter state f.tables.ranks with
  | .answered report => resultOf h state report
  | .acting a previous => do
      let r ← perform h policy state a
      modify fun f => f.setRanks (commit state a previous r.status f.tables.ranks)
      return r

end Engine

end Elyra.Response
