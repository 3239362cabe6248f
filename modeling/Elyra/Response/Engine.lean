import Elyra.Python.Exceptions
import Elyra.Correlation.Engine

set_option autoImplicit false

/-! # The response engine

`execute_recommendation` turns the recommendation of a correlated state into one action. It is cut at
its two lock regions: `enter` is everything up to the end of the first one, `act` is the branch that
performs the action, with no lock held, and `commit` is the second region, which records the rank of
an action that succeeded. What terminating a process or quarantining a file came to is the
`Outcome` handed to `act`.

The identifier and the time of a result come from outside (`uuid4`, `time.time`) and are a `Stamp`. -/

namespace Elyra.Response

open Elyra.Python Elyra.Correlation

variable {F : Type}

/-- The values of `_ACTION_MAP`. -/
inductive Action where
  | allow
  | allowMonitor
  | warn
  | deny
  | terminate
  | quarantine
  deriving DecidableEq, Repr

def Action.text : Action → PyStr
  | .allow => py "ALLOW"
  | .allowMonitor => py "ALLOW_MONITOR"
  | .warn => py "WARN"
  | .deny => py "DENY"
  | .terminate => py "TERMINATE"
  | .quarantine => py "QUARANTINE"

/-- `_ACTION_MAP`. -/
def actionMap : List (PyStr × Action) :=
  [(py "CONTINUE_MONITORING", .allowMonitor), (py "ALERT", .warn), (py "TERMINATE", .terminate),
    (py "QUARANTINE", .quarantine), (py "DENY", .deny), (py "ALLOW", .allow),
    (py "ALLOW_MONITOR", .allowMonitor), (py "WARN", .warn)]

/-- `_ACTION_RANK`. -/
def Action.rank : Action → Int
  | .allow => 0
  | .allowMonitor => 1
  | .warn => 2
  | .deny => 3
  | .terminate => 4
  | .quarantine => 5

inductive Status where
  | succeeded
  | refused
  | failed
  | duplicateSuppressed
  | skippedPolicyDisabled
  deriving DecidableEq, Repr

def Status.text : Status → PyStr
  | .succeeded => py "SUCCEEDED"
  | .refused => py "REFUSED"
  | .failed => py "FAILED"
  | .duplicateSuppressed => py "DUPLICATE_SUPPRESSED"
  | .skippedPolicyDisabled => py "SKIPPED_POLICY_DISABLED"

/-- What `_id_factory` and `_clock` give a result. -/
structure Stamp (F : Type) where
  actionId : PyStr
  timestamp : F
  timestampUtc : PyStr

structure ActionResult (F : Type) where
  stamp : Stamp F
  correlationId : Option PyStr
  requestedAction : PyStr
  executedAction : PyStr
  status : Status
  score : Int
  reason : PyStr
  triggeredRules : List (Mapping F)
  pid : Option Int
  path : Option PyStr
  details : Mapping F
  failureExplanation : Option PyStr

/-- `ActionResult.to_dict`. -/
def ActionResult.toDict (r : ActionResult F) : Mapping F :=
  [(py "schema_version", .str (py "1.0")), (py "action_id", .str r.stamp.actionId),
    (py "correlation_id", (r.correlationId.map Json.str).getD .null),
    (py "requested_action", .str r.requestedAction),
    (py "executed_action", .str r.executedAction), (py "status", .str r.status.text),
    (py "timestamp", .float r.stamp.timestamp), (py "timestamp_utc", .str r.stamp.timestampUtc),
    (py "score", .int r.score), (py "reason", .str r.reason),
    (py "triggered_rules", .arr (r.triggeredRules.map Json.obj)),
    (py "pid", (r.pid.map Json.int).getD .null), (py "path", (r.path.map Json.str).getD .null),
    (py "details", .obj r.details),
    (py "failure_explanation", (r.failureExplanation.map Json.str).getD .null)]

section Reading

variable [FloatNum F]

/-- `_rules`. -/
def rules (state : Mapping F) : List (Mapping F) :=
  ["pre_execution_indicators", "runtime_indicators", "indicators"].flatMap fun key =>
    match lookup (py key) state with
    | some (.arr items) => items.filterMap fun item =>
        match item with
        | .obj kvs => some kvs
        | _ => none
    | _ => []

/-- `int(float(value))`. An integer goes through `float`, which refuses those that round to
    `2 ^ 1024` and beyond, the ones from `2 ^ 970 * (2 ^ 54 - 1)` on; the clamp hides every other
    rounding. -/
def intOfFloat : Json F → Except PyExc Int
  | .int n => if n.natAbs >>> 970 < 2 ^ 54 - 1 then .ok n else .error .overflowError
  | .float f => FloatNum.trunc f
  | .str s =>
      match FloatNum.ofStr (F := F) s with
      | some f => FloatNum.trunc f
      | none => .error .valueError
  | _ => .error .typeError

/-- `_score`. `OverflowError` is not among the exceptions it catches. -/
def score (state : Mapping F) : Except PyExc Int :=
  match (lookup (py "combined_score") state).getD
      ((lookup (py "score") state).getD (.int 0)) with
  | .bool _ => .ok 0
  | v =>
      match intOfFloat v with
      | .ok n => .ok (clampScore n)
      | .error .overflowError => .error .overflowError
      | .error _ => .ok 0

/-- `_path`. -/
def path (state : Mapping F) : Option PyStr :=
  (nonEmptyText state "executable_path").or (nonEmptyText state "path")

/-- `_pid`. -/
def pid (state : Mapping F) : Except PyExc (Option Int) :=
  match (lookup (py "tgid") state).or (lookup (py "pid") state) with
  | none => .ok none
  | some .null => .ok none
  | some (.bool _) => .ok none
  | some v =>
      match pyInt v with
      | .ok n => .ok (if 0 < n then some n else none)
      | .error .overflowError => .error .overflowError
      | .error _ => .ok none

/-- `str(state.get("correlation_id") or "")`. -/
def correlationId (state : Mapping F) : PyStr :=
  ((getTruthy state "correlation_id").map pyStr).getD []

/-- `str(state.get("recommended_action") or "").upper()`. -/
def recommendation (state : Mapping F) : PyStr :=
  upper (((getTruthy state "recommended_action").map pyStr).getD [])

/-- `_ACTION_MAP.get(recommendation)`. -/
def action (state : Mapping F) : Option Action := lookup (recommendation state) actionMap

/-! ## Results -/

/-- What the call sites give `_result`. -/
structure Report (F : Type) where
  requested : PyStr
  executed : PyStr
  status : Status
  reason : PyStr
  details : Mapping F := []
  failure : Option PyStr := none

/-- `_result`, up to the call of the audit logger. -/
def result (stamp : Stamp F) (state : Mapping F) (r : Report F) : Except PyExc (ActionResult F) := do
  let score ← score state
  let pid ← pid state
  return {
    stamp := stamp
    correlationId := (getTruthy state "correlation_id").map pyStr
    requestedAction := r.requested
    executedAction := r.executed
    status := r.status
    score := score
    reason := r.reason
    triggeredRules := rules state
    pid := pid
    path := path state
    details := r.details
    failureExplanation := r.failure }

/-- The result of a recommendation `_ACTION_MAP` does not have. -/
def unsupported (recommendation : PyStr) : Report F where
  requested := if recommendation = [] then py "UNKNOWN" else recommendation
  executed := py "NONE"
  status := .refused
  reason := py "Unsupported response recommendation"
  failure := some (py "UNKNOWN_RECOMMENDATION")

def suppressed (recommendation : PyStr) (a : Action) : Report F where
  requested := recommendation
  executed := a.text
  status := .duplicateSuppressed
  reason := py "This correlation already executed an equal or stronger response"

/-- How terminating the process or quarantining the file ended. -/
inductive Outcome (F : Type) where
  | completed (details : Mapping F)
  | declined (message : PyStr)
  | raised (exc : Exc)

/-- `_execute_terminate` and `_execute_quarantine`, once the outcome is known. -/
def settled (recommendation : PyStr) (a : Action) (done refusal : String) :
    Outcome F → Except Exc (Report F)
  | .completed details => .ok {
      requested := recommendation
      executed := a.text
      status := .succeeded
      reason := py done
      details := details }
  | .declined message => .ok {
      requested := recommendation
      executed := a.text
      status := .refused
      reason := py refusal
      failure := some message }
  | .raised exc => .error exc

/-- The branch of `execute_recommendation` that performs the action. -/
def act (automaticRuntimeActions : Bool) (state : Mapping F) (a : Action) (outcome : Outcome F) :
    Except Exc (Report F) :=
  let report (status : Status) (reason : String) (failure : Option PyStr) : Report F :=
    { requested := recommendation state
      executed := a.text
      status := status
      reason := py reason
      failure := failure }
  match a with
  | .allow => .ok (report .succeeded "Execution was allowed by the current policy" none)
  | .allowMonitor => .ok (report .succeeded "Execution continues under runtime monitoring" none)
  | .warn =>
      .ok (report .succeeded "A warning event was emitted for the correlated execution" none)
  | .deny =>
      if textOr state "status" (py "None") ≠ py "DENIED_PRE_EXECUTION" then
        .ok (report .refused "Deny can only acknowledge a fanotify denial already applied"
          (some (py "DENY_NOT_CONFIRMED_BY_FANOTIFY")))
      else
        .ok (report .succeeded "fanotify pre-execution denial was confirmed and recorded" none)
  | .terminate =>
      if automaticRuntimeActions then
        settled (recommendation state) .terminate
          "The correlation-bound process was terminated using a pidfd"
          "Safe process termination requirements were not satisfied" outcome
      else
        .ok (report .skippedPolicyDisabled "Automatic destructive runtime responses are disabled"
          none)
  | .quarantine =>
      if automaticRuntimeActions then
        settled (recommendation state) .quarantine
          "The correlation-bound file was placed in protected quarantine"
          "Safe quarantine requirements were not satisfied" outcome
      else
        .ok (report .skippedPolicyDisabled "Automatic destructive runtime responses are disabled"
          none)

/-! ## The two lock regions -/

/-- `_highest_executed_rank`. -/
abbrev Ranks := Dict PyStr Int

/-- `self._highest_executed_rank.get(correlation_id, -1)`. -/
def Ranks.of (ranks : Ranks) (correlationId : PyStr) : Int := (ranks.get? correlationId).getD (-1)

theorem Ranks.of_set (ranks : Ranks) (id id' : PyStr) (n : Int) :
    Ranks.of (ranks.set id n) id' = if id' = id then n else ranks.of id' := by
  unfold Ranks.of
  rw [Dict.get?_set]
  split <;> rfl

/-- Where `execute_recommendation` is after its first lock region: it has its answer, or it performs
    the action holding the rank it has read. -/
inductive Entered (F : Type) where
  | answered (report : Report F)
  | acting (a : Action) (previous : Int)

def enter (state : Mapping F) (ranks : Ranks) : Entered F :=
  match action state with
  | none => .answered (unsupported (recommendation state))
  | some a =>
      let previous := ranks.of (correlationId state)
      if correlationId state ≠ [] ∧ a.rank ≤ previous then
        .answered (suppressed (recommendation state) a)
      else .acting a previous

/-- The second lock region. -/
def commit (state : Mapping F) (a : Action) (previous : Int) (status : Status) (ranks : Ranks) :
    Ranks :=
  if correlationId state ≠ [] ∧ status = .succeeded then
    ranks.set (correlationId state) (max previous a.rank)
  else ranks

end Reading

end Elyra.Response
