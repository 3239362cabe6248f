import Elyra.Correlation.Snapshot
import Elyra.Fanotify.Reader
import Elyra.Response.Engine

set_option autoImplicit false
set_option linter.unusedSectionVars false

/-! # The daemon's threads

The fanotify reader, the workers that handle permission events, and the two consumers that correlate
an event, audit it and respond to it. The threads share the event queue, the correlation engine and
the response engine; a step is one region that holds a lock or one call of the audit logger, and a
run is any interleaving of steps.

Every call of `AuditLogger.record` may fail, with any exception `record` can raise. Nothing else
fails unexpectedly: binding a target and the two destructive actions return or raise the
`ResponseSafetyError` their callers catch, and the write to the fanotify group returns. Binding
changes nothing a later step reads here, because the outcome of an action is given. -/

namespace Elyra.Service

open Elyra.Python Elyra.Ebpf Elyra.Fanotify Elyra.Analyzer Elyra.Correlation

variable {T F : Type}

/-! ## Calls of the audit logger -/

/-- The exceptions `AuditLogger.record` can raise. A `UnicodeEncodeError` is a `ValueError`. -/
def recordRaises : List ExcClass :=
  [.osError, .valueError, .typeError, .auditIntegrityError, .auditSecurityError]

/-- A failure of `AuditLogger.record`. -/
def AuditFault := { e : Exc // e.isIn recordRaises = true }

/-- How a call of `record` ends; `none` is success. -/
def ended : Option AuditFault → Except Exc Unit
  | none => .ok ()
  | some fault => .error fault.1

/-- The world in which the audit logger ends this way. -/
def auditedBy (w : World T F) (fault : Option AuditFault) : World T F :=
  { w with audit := fun _ => ended fault }

/-! ## State -/

/-- Where the events of a consumer come from. -/
inductive Monitor where
  | fanotify
  | ebpf
  deriving DecidableEq, Repr

/-- Where a consumer is in the body of its loop. -/
inductive Phase (F : Type) where
  | waiting
  /-- An accepted event: `_audit_correlation` comes next. -/
  | correlated (state : Mapping F)
  /-- `_execute_correlated_response` comes next. -/
  | audited (state : Mapping F)
  /-- In `execute_recommendation`, between its lock regions. -/
  | acting (state : Mapping F) (a : Response.Action) (previous : Int)
  /-- About to call `_result`; the rank is recorded afterwards, unless the call was suppressed. -/
  | reporting (state : Mapping F) (report : Response.Report F)
      (rank : Option (Response.Action × Int))
  /-- `execute_recommendation` has returned. -/
  | reported (state : Mapping F) (result : Response.ActionResult F)
  /-- The loop ended by an exception. -/
  | dead (exc : Exc)

/-- The accepted state the consumer still has to hand to the response engine. -/
def Phase.pending : Phase F → List (Mapping F)
  | .correlated state => [state]
  | .audited state => [state]
  | _ => []

/-- A consumer thread and what it has done. -/
structure Consumer (F : Type) where
  phase : Phase F := .waiting
  /-- Events it has taken. -/
  taken : List (Mapping F) := []
  /-- Events the correlation engine has answered. -/
  registered : List (Mapping F) := []
  /-- States of accepted events. -/
  accepted : List (Mapping F) := []
  /-- States handed to `execute_recommendation`. -/
  handed : List (Mapping F) := []

structure Daemon (T F : Type) where
  /-- The exception the reader loop ended with. -/
  reader : Option Exc := none
  /-- The permission events submitted to the executor. -/
  inFlight : List (FanotifyEvent T) := []
  /-- `_fanotify_events`. -/
  queue : List (Mapping F) := []
  engine : Engine T F := {}
  ranks : Response.Ranks := Dict.empty
  consumer : Monitor → Consumer F := fun _ => {}
  /-- The fanotify events handled so far, and the records put on the queue for them. -/
  handled : List (FanotifyEvent T) := []
  queued : List (FanotifyEvent T × Mapping F) := []

/-- What the components are configured with. -/
structure Setup (T F : Type) [Zero T] [Min T] [LE T] [DecidableLE T] where
  env : Env T
  correlation : AcceptedPolicy T
  fanotify : FanotifyPolicy T
  maxPendingEvents : Nat
  automaticRuntimeActions : Bool
  /-- A clock reading as a value. -/
  seconds : T → Json F

namespace Daemon

/-- Change one consumer. -/
def setConsumer (d : Daemon T F) (m : Monitor) (c : Consumer F) : Daemon T F :=
  { d with consumer := Function.update d.consumer m c }

/-- A fanotify event was handled in this frame. -/
def finish (d : Daemon T F) (event : FanotifyEvent T) (frame : Frame F) : Daemon T F :=
  { d with
    queue := d.queue ++ frame.queued
    handled := d.handled ++ [event]
    queued := d.queued ++ frame.queued.map fun record => (event, record) }

end Daemon

/-! ## Steps -/

/-- One step of one thread, with what the outside world answers during it. -/
inductive Step (T F : Type) where
  /-- The reader: an overflow of the kernel's queue. -/
  | overflow (event : FanotifyEvent T) (w : World T F) (fault : Option AuditFault)
  /-- The reader: an event that is no permission event. -/
  | ignore (event : FanotifyEvent T)
  /-- The reader: no slot is free; the write to the group takes `written` bytes. -/
  | saturated (event : FanotifyEvent T) (w : World T F) (written : Nat)
      (fault : Option AuditFault)
  /-- The reader: the event goes to the executor. -/
  | submit (event : FanotifyEvent T)
  /-- A worker: `_handle_event` of the `i`-th submitted event. -/
  | handle (i : Nat) (w : World T F) (b : Bench T F) (fault : Option AuditFault)
  /-- The fanotify consumer: the next record of the queue. -/
  | take
  /-- The eBPF consumer: an event of the collector. -/
  | receive (event : EbpfEvent)
  /-- An IPC client: `summary` and `list_states` expire old states. -/
  | expire (now : Option T)
  /-- A consumer: `_audit_correlation`. -/
  | audit (m : Monitor) (fault : Option AuditFault)
  /-- A consumer: `execute_recommendation` up to the end of its first lock region. -/
  | respond (m : Monitor)
  /-- A consumer: the action, completed with these details or declined with this message. -/
  | act (m : Monitor) (outcome : Except PyStr (Mapping F))
  /-- A consumer: `_result`, and the second lock region. -/
  | report (m : Monitor) (stamp : Response.Stamp F) (fault : Option AuditFault)
  /-- A consumer: `record_action_result`. -/
  | store (m : Monitor)

section Step

variable [Zero T] [Add T] [Sub T] [Min T] [LE T] [DecidableLE T] [LT T] [DecidableLT T]
variable [FloatNum F]

/-- A consumer takes an event and calls the correlation engine, which answers `x`. -/
def consume (c : Setup T F) (d : Daemon T F) (m : Monitor) (event : Mapping F)
    (x : Except PyExc (Answer T F) × Engine T F) : Daemon T F :=
  let consumer := { d.consumer m with taken := (d.consumer m).taken ++ [event] }
  let registered := { consumer with registered := consumer.registered ++ [event] }
  let consumer : Consumer F :=
    match x.1 with
    | .error exc => { consumer with phase := .dead exc.toExc }
    | .ok answer =>
        match answer.state? with
        | none => registered
        | some s =>
            { registered with
              phase := .correlated (s.toDict c.seconds)
              accepted := registered.accepted ++ [s.toDict c.seconds] }
  { d.setConsumer m consumer with engine := x.2 }

/-- The reader runs a statement for an event. -/
def readerRuns (d : Daemon T F) (event : FanotifyEvent T) (x : Py (Frame F) Unit) : Daemon T F :=
  { d.finish event (Py.final x Frame.new) with reader := Py.raised x Frame.new }

/-- `_audit_correlation`, in the consumer's phase. -/
def auditCorrelation (state : Mapping F) (fault : Option AuditFault) : Phase F :=
  match ended fault with
  | .ok _ => .audited state
  | .error exc =>
      if exc.isIn [.osError, .typeError, .valueError] then .audited state else .dead exc

/-- Where `execute_recommendation` is after its first lock region. -/
def enteredPhase (state : Mapping F) (ranks : Response.Ranks) : Phase F :=
  match Response.enter state ranks with
  | .answered report => .reporting state report none
  | .acting a previous => .acting state a previous

/-- Where it is when the action is done. -/
def actedPhase (c : Setup T F) (state : Mapping F) (a : Response.Action) (previous : Int)
    (outcome : Except PyStr (Mapping F)) : Phase F :=
  let outcome : Response.Outcome F :=
    match outcome with
    | .ok details => .completed details
    | .error message => .declined message
  match Response.act c.automaticRuntimeActions state a outcome with
  | .ok report => .reporting state report (some (a, previous))
  | .error exc => .dead exc

/-- `_result`: it reads the state, builds the result and records it. -/
def resultPhase (state : Mapping F) (report : Response.Report F) (stamp : Response.Stamp F)
    (fault : Option AuditFault) : Phase F :=
  match Response.result stamp state report with
  | .error exc => .dead exc.toExc
  | .ok result =>
      match ended fault with
      | .error exc => .dead exc
      | .ok _ => .reported state result

/-- The second lock region, reached when `_result` has returned. -/
def committed (state : Mapping F) (rank : Option (Response.Action × Int)) (phase : Phase F)
    (ranks : Response.Ranks) : Response.Ranks :=
  match rank, phase with
  | some (a, previous), .reported _ result =>
      Response.commit state a previous result.status ranks
  | _, _ => ranks

/-- The end of `_execute_correlated_response`. -/
def stored (c : Setup T F) (state : Mapping F) (result : Response.ActionResult F)
    (e : Engine T F) : Phase F × Engine T F :=
  match getTruthy state "pid", getTruthy state "correlation_id" with
  | some pid, some correlationId =>
      match pyInt pid with
      | .error exc => (.dead exc.toExc, e)
      | .ok pid =>
          (.waiting, (recordActionResult c.env pid (pyStr correlationId) result.toDict e).2)
  | _, _ => (.waiting, e)

/-- The daemon after a step; `none` when the thread is not there. -/
def step (c : Setup T F) (d : Daemon T F) : Step T F → Option (Daemon T F)
  | .overflow event w fault =>
      if d.reader = none ∧ event.isOverflow then
        some (readerRuns d event (recordOverflow (auditedBy w fault) event))
      else none
  | .ignore event =>
      if d.reader = none ∧ !event.isOverflow ∧ !event.isExecPermission then some d else none
  | .saturated event w written fault =>
      if d.reader = none ∧ !event.isOverflow ∧ event.isExecPermission ∧
          c.maxPendingEvents ≤ d.inFlight.length then
        let w := { auditedBy w fault with write := fun _ => .ok written }
        some (readerRuns d event (respondSaturated w event))
      else none
  | .submit event =>
      if d.reader = none ∧ !event.isOverflow ∧ event.isExecPermission ∧
          d.inFlight.length < c.maxPendingEvents then
        some { d with inFlight := d.inFlight ++ [event] }
      else none
  | .handle i w b fault =>
      match d.inFlight[i]? with
      | none => none
      | some event =>
          -- an exception of the handler stays in its future
          let w := auditedBy (w.analysedBy b event) fault
          some { d.finish event (Py.final (handleEvent c.fanotify w event) Frame.new) with
            inFlight := d.inFlight.eraseIdx i }
  | .take =>
      match (d.consumer .fanotify).phase, d.queue with
      | .waiting, record :: queue =>
          some (consume c { d with queue := queue } .fanotify record
            (registerPreExecution c.env c.correlation record d.engine))
      | _, _ => none
  | .receive event =>
      match (d.consumer .ebpf).phase with
      | .waiting =>
          some (consume c d .ebpf event.record
            (ingestRuntimeEvent c.env c.correlation event.record d.engine))
      | _ => none
  | .expire now => some { d with engine := (expire c.env c.correlation now d.engine).2 }
  | .audit m fault =>
      match (d.consumer m).phase with
      | .correlated state =>
          some (d.setConsumer m { d.consumer m with phase := auditCorrelation state fault })
      | _ => none
  | .respond m =>
      match (d.consumer m).phase with
      | .audited state =>
          some (d.setConsumer m { d.consumer m with
            phase := enteredPhase state d.ranks
            handed := (d.consumer m).handed ++ [state] })
      | _ => none
  | .act m outcome =>
      match (d.consumer m).phase with
      | .acting state a previous =>
          some (d.setConsumer m { d.consumer m with phase := actedPhase c state a previous outcome })
      | _ => none
  | .report m stamp fault =>
      match (d.consumer m).phase with
      | .reporting state report rank =>
          let phase := resultPhase state report stamp fault
          some { d.setConsumer m { d.consumer m with phase := phase } with
            ranks := committed state rank phase d.ranks }
      | _ => none
  | .store m =>
      match (d.consumer m).phase with
      | .reported state result =>
          let (phase, engine) := stored c state result d.engine
          some { d.setConsumer m { d.consumer m with phase := phase } with engine := engine }
      | _ => none

/-- The daemon after a run. -/
def run (c : Setup T F) : List (Step T F) → Daemon T F → Option (Daemon T F)
  | [], d => some d
  | s :: steps, d =>
      match step c d s with
      | none => none
      | some d' => run c steps d'

end Step

/-! ## The property -/

/-- No thread has ended, every handled fanotify event is on the queue, every event taken was
    registered, and every accepted state was handed to the response engine or is about to be. -/
structure Contained (d : Daemon T F) : Prop where
  reader : d.reader = none
  alive : ∀ m exc, (d.consumer m).phase ≠ .dead exc
  queued : d.queued.map Prod.fst = d.handled
  registered : ∀ m, (d.consumer m).registered = (d.consumer m).taken
  handed : ∀ m, (d.consumer m).handed ++ (d.consumer m).phase.pending = (d.consumer m).accepted

/-- The failure, if any, is one the call site catches: `_emit_record` and `_audit_correlation` catch
    `OSError`, `ValueError` and `TypeError`, `_result` catches nothing. -/
def Step.Absorbed : Step T F → Prop
  | .overflow _ _ fault => survives (ended fault) = true
  | .saturated _ _ _ fault => survives (ended fault) = true
  | .handle _ _ _ fault => survives (ended fault) = true
  | .audit _ fault => survives (ended fault) = true
  | .report _ _ fault => fault = none
  | _ => True

end Elyra.Service
