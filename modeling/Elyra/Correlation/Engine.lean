import Elyra.Correlation.Policy

set_option autoImplicit false

/-! # The execution correlation engine

`ExecutionCorrelationEngine` of `correlation/engine.py`: it joins fanotify decisions and eBPF events
into one `ExecutionState` per live process. A fanotify record and a runtime event are untyped
mappings; a call returns its answer or the exception a conversion raised, with the engine as the
call left it (an exception after a mutation keeps the mutation).

The clock and the id factory are read in order: the `n`-th reading is `clock n`, the `n`-th new id
is `idFactory n`, and the engine counts how many of each it has taken. `archived` is a deque of
bounded length, so the engine also keeps everything it ever archived, oldest first. -/

namespace Elyra.Correlation

open Elyra.Python

/-! ## Data -/

inductive Source where
  | fanotify
  | runtimeOnly
  | fanotifyLateBound
  deriving DecidableEq, Repr

inductive Status where
  | pendingExec
  | active
  | exited
  | deniedPreExecution
  deriving DecidableEq, Repr

inductive Action where
  | continueMonitoring
  | alert
  | terminate
  | quarantine
  | deny
  deriving DecidableEq, Repr

/-- `_ACTION_RANK`. -/
def Action.rank : Action → Nat
  | .continueMonitoring => 0
  | .alert => 1
  | .terminate => 2
  | .quarantine => 3
  | .deny => 4

structure RuntimeIndicator (F : Type) where
  rule : Rule
  weight : Int
  occurrence : Nat
  maximumOccurrences : Int
  evidence : Json F
  description : PyStr

structure Transition (T : Type) where
  src : Action
  dst : Action
  reason : PyStr
  combinedScore : Int
  timestampMonotonic : T

structure ExecutionState (T F : Type) where
  correlationId : PyStr
  generation : Nat
  pid : Int
  tgid : Int
  ppid : Int
  uid : Int
  source : Source
  status : Status
  executablePath : Option PyStr
  executableIdentifier : Option PyStr
  preExecutionScore : Int
  preExecutionDecision : PyStr
  preExecutionIndicators : List (Mapping F)
  runtimeScore : Int
  combinedScore : Int
  recommendedAction : Action
  parentCorrelationId : Option PyStr
  createdMonotonic : T
  lastSeenMonotonic : T
  execTimestampNs : Option Int := none
  exitTimestampNs : Option Int := none
  exitedMonotonic : Option T := none
  runtimeIndicators : List (RuntimeIndicator F) := []
  ruleOccurrences : Dict Rule Nat := Dict.empty
  distinctFiles : List PyStr := []
  renameIdentifiers : List PyStr := []
  outboundConnections : List PyStr := []
  transitions : List (Transition T) := []
  terminalReason : Option PyStr := none
  actionExecutionStatus : PyStr := py "NOT_EXECUTED_STAGE11"
  lastActionResult : Option (Mapping F) := none

/-- `state.rule_occurrences.get(rule, 0)`. -/
def ExecutionState.occurrences {T F : Type} (s : ExecutionState T F) (r : Rule) : Nat :=
  (s.ruleOccurrences.get? r).getD 0

/-- What the engine is given from outside: the clock, the id factory, and `round(_, 6)`. -/
structure Env (T : Type) where
  clock : Nat → T
  idFactory : Nat → PyStr
  round6 : T → T

structure Engine (T F : Type) where
  states : Dict Int (ExecutionState T F) := Dict.empty
  archiveLog : List (ExecutionState T F) := []
  generationByPid : Dict Int Nat := Dict.empty
  clockReads : Nat := 0
  idsIssued : Nat := 0

namespace Engine

variable {T F : Type}

/-- The deque `archived`, with its `maxlen=1024`. -/
def archived (e : Engine T F) : List (ExecutionState T F) :=
  e.archiveLog.drop (e.archiveLog.length - 1024)

/-- `self._clock()`. -/
def readClock (e : Engine T F) : Engine T F := { e with clockReads := e.clockReads + 1 }

/-- The effect on the engine of mutating the live state `s` in place. -/
def put (e : Engine T F) (s : ExecutionState T F) : Engine T F :=
  { e with states := e.states.set s.pid s }

/-- `_archive`. -/
def archive (e : Engine T F) (pid : Int) (reason : PyStr) : Engine T F :=
  match e.states.get? pid with
  | none => e
  | some s =>
      { e with
        states := e.states.pop pid
        archiveLog := e.archiveLog ++ [{ s with terminalReason := some reason }] }

end Engine

/-! ## Reading the untyped mappings -/

section Conversions

variable {F : Type} [FloatNum F]

/-- `max(0, min(100, score))`. -/
def clampScore (n : Int) : Int := max 0 (min 100 n)

/-- `value.split("/", 1)[0]`. -/
def beforeSlash (s : PyStr) : PyStr := s.takeWhile (fun c => c != 47)

/-- `_score`. Only the text branch catches `ValueError`, and no branch catches `OverflowError`. -/
def scoreOf : Json F → Except PyExc Int
  | .int n => .ok (clampScore n)
  | .float f =>
      match FloatNum.trunc f with
      | .ok n => .ok (clampScore n)
      | .error x => .error x
  | .str s =>
      match FloatNum.ofStr (F := F) (beforeSlash s) with
      | none => .ok 0
      | some f =>
          match FloatNum.trunc f with
          | .ok n => .ok (clampScore n)
          | .error .valueError => .ok 0
          | .error x => .error x
  | _ => .ok 0

/-- `_pid`. -/
def pidOf (record : Mapping F) : Except PyExc Int :=
  match (getTruthy record "tgid").or (getTruthy record "pid") with
  | none => .ok 0
  | some (.bool _) => .ok 0
  | some v =>
      match pyInt v with
      | .ok n => .ok n
      | .error .overflowError => .error .overflowError
      | .error _ => .ok 0

/-- `int(mapping.get(key) or default)`. -/
def intOr (m : Mapping F) (key : String) (default : Int) : Except PyExc Int :=
  match getTruthy m key with
  | none => .ok default
  | some v => pyInt v

/-- `str(mapping.get(key, default))`. -/
def textOr (m : Mapping F) (key : String) (default : PyStr) : PyStr :=
  match lookup (py key) m with
  | none => default
  | some v => pyStr v

/-- `str(v) if isinstance(v, str) and v else None` for `v = mapping.get(key)`. -/
def nonEmptyText (m : Mapping F) (key : String) : Option PyStr :=
  match lookup (py key) m with
  | some (.str s) => if s = [] then none else some s
  | _ => none

/-- The pair an element of the iterable argument of `dict(...)` stands for. A key that is not a
    string is kept as its text; nothing reads it. -/
def pairOf : Json F → Except PyExc (PyStr × Json F)
  | .arr [.arr _, _] => .error .typeError
  | .arr [.obj _, _] => .error .typeError
  | .arr [k, v] => .ok (pyStr k, v)
  | .arr _ => .error .valueError
  | .str [a, b] => .ok ([a], .str [b])
  | .str _ => .error .valueError
  | .obj [(a, _), (b, _)] => .ok (a, .str b)
  | .obj _ => .error .valueError
  | _ => .error .typeError

/-- `dict(item)`. -/
def dictOfItem : Json F → Except PyExc (Mapping F)
  | .obj kvs => .ok kvs
  | .arr xs => (xs.mapM pairOf).map dictOf
  | .str [] => .ok []
  | .str _ => .error .valueError
  | _ => .error .typeError

/-- What `_register_pre_execution` reads from a fanotify record. -/
structure Registration (F : Type) where
  score : Int
  finalAction : PyStr
  requested : PyStr
  safeIndicators : List (Mapping F)
  executablePath : Option PyStr

def scoreField (record : Mapping F) : Json F :=
  (lookup (py "score") record).getD ((lookup (py "risk_score") record).getD (.int 0))

def safeIndicators (record : Mapping F) : Except PyExc (List (Mapping F)) :=
  match lookup (py "indicators") record with
  | some (.arr items) => items.mapM dictOfItem
  | _ => .ok []

def registrationOf (record : Mapping F) : Except PyExc (Registration F) :=
  match scoreOf (scoreField record) with
  | .error x => .error x
  | .ok score =>
      match safeIndicators record with
      | .error x => .error x
      | .ok indicators =>
          .ok {
            score := score
            finalAction := upper (textOr record "final_action" (py "ALLOW"))
            requested := upper (textOr record "requested_decision" (py "UNKNOWN"))
            safeIndicators := indicators
            executablePath := nonEmptyText record "path" }

/-- `final_action == "DENY"`. -/
def Registration.denied (r : Registration F) : Bool := r.finalAction == py "DENY"

/-- The event kinds `_ingest_runtime_event` distinguishes; `other` keeps the text. -/
inductive Kind where
  | processExec
  | fileWrite
  | fileRename
  | networkConnect
  | processExit
  | other (text : PyStr)
  deriving DecidableEq, Repr

def Kind.ofText (s : PyStr) : Kind :=
  if s = py "PROCESS_EXEC" then .processExec
  else if s = py "FILE_WRITE" then .fileWrite
  else if s = py "FILE_RENAME" then .fileRename
  else if s = py "NETWORK_CONNECT" then .networkConnect
  else if s = py "PROCESS_EXIT" then .processExit
  else .other s

/-- `str(event.get("event_type", ""))`. -/
def kindOf (event : Mapping F) : Kind := .ofText (textOr event "event_type" [])

/-- The reason of the closing `_recalculate`: `EVENT_` and the kind, or `UNKNOWN` for none. -/
def eventReason (event : Mapping F) : PyStr :=
  let kind := textOr event "event_type" []
  py "EVENT_" ++ if kind = [] then py "UNKNOWN" else kind

/-- The text of `mapping.get(key) or default` in a format string. -/
def truthyText (m : Mapping F) (key : String) (default : PyStr) : PyStr :=
  match getTruthy m key with
  | none => default
  | some v => pyStr v

def endpointOf (event : Mapping F) : PyStr :=
  truthyText event "destination_address" (py "unknown") ++ py ":" ++
    truthyText event "destination_port" (py "0")

end Conversions

/-! ## Scores, actions and rules -/

section Operations

variable {T F : Type} [Zero T] [Min T] [Sub T] [LE T] [DecidableLE T] [LT T] [DecidableLT T]
variable [FloatNum F]
variable (env : Env T) (p : AcceptedPolicy T)

/-- `_action_for`. -/
def actionFor (s : ExecutionState T F) : Action :=
  if s.status = .deniedPreExecution then .deny
  else if p.threshold .quarantineMin ≤ s.combinedScore then .quarantine
  else if p.threshold .terminateMin ≤ s.combinedScore then .terminate
  else if p.threshold .alertMin ≤ s.combinedScore then .alert
  else .continueMonitoring

/-- The first two assignments of `_recalculate`. -/
def rescored (s : ExecutionState T F) : ExecutionState T F :=
  let runtime := min p.toPolicy.scoreMaximum (s.runtimeIndicators.map (·.weight)).sum
  { s with
    runtimeScore := runtime
    combinedScore := min p.toPolicy.scoreMaximum (s.preExecutionScore + runtime) }

/-- The candidate, unless it ranks below the previous action. -/
def escalate (previous candidate : Action) : Action :=
  if candidate.rank < previous.rank then previous else candidate

/-- `_recalculate`, on a state and the number of clock readings taken so far. The clock is read only
    when a transition is appended. -/
def recalculate (reason : PyStr) (s : ExecutionState T F) (reads : Nat) :
    ExecutionState T F × Nat :=
  let s := rescored p s
  let previous := s.recommendedAction
  let candidate := escalate previous (actionFor p s)
  let s := { s with recommendedAction := candidate }
  if candidate ≠ previous ∨ s.transitions = [] then
    ({ s with
        transitions := s.transitions ++
          [⟨previous, candidate, reason, s.combinedScore, env.round6 (env.clock reads)⟩] },
      reads + 1)
  else (s, reads)

/-- `_apply_rule`. -/
def applyRule (r : Rule) (evidence : Json F) (s : ExecutionState T F) (reads : Nat) :
    ExecutionState T F × Nat :=
  let spec := p.spec r
  let occurrence := s.occurrences r
  if spec.maxOccurrences ≤ occurrence then (s, reads)
  else
    recalculate env p r.name
      { s with
        ruleOccurrences := s.ruleOccurrences.set r (occurrence + 1)
        runtimeIndicators := s.runtimeIndicators ++
          [⟨r, spec.weight, occurrence + 1, spec.maxOccurrences, evidence, spec.description⟩] }
      reads

/-- `_lexically_same`. -/
def lexicallySame (left right : Option PyStr) : Bool :=
  match left, right with
  | some l, some r => l = [] || r = [] || normpath l = normpath r
  | _, _ => true

/-! ## State creation -/

/-- `min(states, key=last_seen)`: the first pid whose state was seen least recently. -/
def oldest : List (Int × ExecutionState T F) → Option Int
  | [] => none
  | kv :: rest =>
      some (rest.foldl
        (fun best kv => if kv.2.lastSeenMonotonic < best.2.lastSeenMonotonic then kv else best)
        kv).1

/-- The eviction at the head of `_new_state`. -/
def evict (e : Engine T F) : Engine T F :=
  if p.toPolicy.maxStates ≤ e.states.size then
    match oldest e.states.items with
    | none => e
    | some pid => e.archive pid (py "MAX_STATES_EVICTION")
  else e

/-- The arguments of `_new_state`, with its defaults. -/
structure NewState (F : Type) where
  pid : Int
  ppid : Int := 0
  uid : Int := 0
  source : Source
  status : Status
  executablePath : Option PyStr := none
  preExecutionScore : Int := 0
  preExecutionDecision : PyStr := py "UNKNOWN"
  preExecutionIndicators : List (Mapping F) := []
  parentCorrelationId : Option PyStr := none

/-- The `ExecutionState(...)` built by `_new_state`. -/
def NewState.build (a : NewState F) (id : PyStr) (generation : Nat) (now : T) :
    ExecutionState T F :=
  { correlationId := id
    generation := generation
    pid := a.pid
    tgid := a.pid
    ppid := a.ppid
    uid := a.uid
    source := a.source
    status := a.status
    executablePath := a.executablePath
    executableIdentifier := none
    preExecutionScore := a.preExecutionScore
    preExecutionDecision := a.preExecutionDecision
    preExecutionIndicators := a.preExecutionIndicators
    runtimeScore := 0
    combinedScore := a.preExecutionScore
    recommendedAction := .continueMonitoring
    parentCorrelationId := a.parentCorrelationId
    createdMonotonic := now
    lastSeenMonotonic := now }

/-- The generation number a new state of `pid` gets. -/
def Engine.nextGeneration (e : Engine T F) (pid : Int) : Nat :=
  (e.generationByPid.get? pid).getD 0 + 1

/-- `_new_state`: evict, number the generation, read the clock, take an id, insert, recalculate. -/
def newState (a : NewState F) (e : Engine T F) : ExecutionState T F × Engine T F :=
  let e := evict p e
  let generation := e.nextGeneration a.pid
  let s := a.build (env.idFactory e.idsIssued) generation (env.clock e.clockReads)
  let (s, reads) := recalculate env p (py "STATE_CREATED") s (e.clockReads + 1)
  (s, { e with
        states := e.states.set a.pid s
        generationByPid := e.generationByPid.set a.pid generation
        clockReads := reads
        idsIssued := e.idsIssued + 1 })

/-- Does the state's time to live end before `current`, and why. -/
def expiry (current : T) (s : ExecutionState T F) : Option PyStr :=
  match s.status, s.exitedMonotonic with
  | .exited, some exited =>
      if p.toPolicy.exitedStateTtlSeconds < current - exited then
        some (py "EXITED_STATE_TTL_EXPIRED")
      else none
  | _, _ =>
      if p.toPolicy.stateTtlSeconds < current - s.lastSeenMonotonic then
        some (py "ACTIVE_STATE_TTL_EXPIRED")
      else none

/-- The list `expired` of `_expire`. -/
def expiredAt (current : T) (e : Engine T F) : List (Int × PyStr) :=
  e.states.items.filterMap (fun kv => (expiry p current kv.2).map (fun reason => (kv.1, reason)))

/-- `_expire`; with no argument it reads the clock. -/
def expire (now : Option T) (e : Engine T F) : Nat × Engine T F :=
  let current := now.getD (env.clock e.clockReads)
  let e := match now with
    | none => e.readClock
    | some _ => e
  let expired := expiredAt p current e
  (expired.length, expired.foldl (fun e x => e.archive x.1 x.2) e)

/-! ## The two monitors -/

/-- What a call answers; a returned state is the snapshot `to_dict()` takes. -/
inductive Answer (T F : Type) where
  | rejected (reason : PyStr)
  | registered (lateBound : Bool) (state : ExecutionState T F)
  | ingested (state : ExecutionState T F)
  | expired (count : Nat)
  | recorded (ok : Bool)

/-- `late_bind`: a runtime-only state created within the late-binding window. -/
def lateBind (now : T) (s : ExecutionState T F) : Bool :=
  s.source = .runtimeOnly && (s.status = .active || s.status = .pendingExec) &&
    decide (now - s.createdMonotonic ≤ p.toPolicy.lateBindingWindowSeconds)

/-- The assignments of the late-binding branch. -/
def bindLate (r : Registration F) (now : T) (s : ExecutionState T F) : ExecutionState T F :=
  { s with
    source := .fanotifyLateBound
    executablePath := r.executablePath.or s.executablePath
    preExecutionScore := r.score
    preExecutionDecision := r.requested
    preExecutionIndicators := r.safeIndicators
    lastSeenMonotonic := now
    status := if r.denied then .deniedPreExecution else s.status }

/-- The arguments of `_new_state` for a fanotify record. -/
def Registration.newState (r : Registration F) (pid : Int) : NewState F :=
  { pid := pid
    source := .fanotify
    status := if r.denied then .deniedPreExecution else .pendingExec
    executablePath := r.executablePath
    preExecutionScore := r.score
    preExecutionDecision := r.requested
    preExecutionIndicators := r.safeIndicators }

/-- The end of `_register_pre_execution`, once the record is read. -/
def bindRegistration (r : Registration F) (pid : Int) (now : T) (e : Engine T F) :
    Answer T F × Engine T F :=
  match e.states.get? pid with
  | some s =>
      if lateBind p now s then
        let (s, reads) :=
          recalculate env p (py "FANOTIFY_LATE_BINDING") (bindLate r now s) e.clockReads
        (.registered true s, { e.put s with clockReads := reads })
      else
        let (s, e) := newState env p (r.newState pid)
          (e.archive pid (py "SUPERSEDED_BY_NEW_PRE_EXECUTION"))
        (.registered false s, e)
  | none =>
      let (s, e) := newState env p (r.newState pid) e
      (.registered false s, e)

/-- `_register_pre_execution`. -/
def registerPreExecution (record : Mapping F) (e : Engine T F) :
    Except PyExc (Answer T F) × Engine T F :=
  let e := (expire env p none e).2
  match pidOf record with
  | .error x => (.error x, e)
  | .ok pid =>
      if pid ≤ 0 then (.ok (.rejected (py "MISSING_PROCESS_ID")), e)
      else
        let now := env.clock e.clockReads
        let e := e.readClock
        match registrationOf record with
        | .error x => (.error x, e)
        | .ok r =>
            let (a, e) := bindRegistration env p r pid now e
            (.ok a, e)

/-- The parent a new runtime state inherits from, and the engine after the clock was read for it. -/
def parentOf (ppid : Int) (e : Engine T F) : Option PyStr × Engine T F :=
  match e.states.get? ppid with
  | none => (none, e)
  | some parent =>
      let age := env.clock e.clockReads - parent.lastSeenMonotonic
      (if age ≤ p.toPolicy.inheritanceWindowSeconds then some parent.correlationId else none,
        e.readClock)

/-- The evidence of `CHILD_PROCESS_EXEC`. -/
def childEvidence (ppid : Int) (parentId : PyStr) : Json F :=
  .obj [(py "parent_pid", .int ppid), (py "parent_correlation_id", .str parentId)]

/-- The arguments of `_new_state` for a runtime event. -/
def runtimeNewState (pid ppid uid : Int) (parentId : Option PyStr) : NewState F :=
  { pid := pid
    ppid := ppid
    uid := uid
    source := .runtimeOnly
    status := .active
    parentCorrelationId := parentId }

/-- The creation branch of `_runtime_state`. -/
def createRuntimeState (event : Mapping F) (pid ppid uid : Int) (parentId : Option PyStr)
    (e : Engine T F) : ExecutionState T F × Engine T F :=
  let (s, e) := newState env p (runtimeNewState pid ppid uid parentId) e
  match parentId with
  | none => (s, e)
  | some id =>
      if kindOf event = .processExec then
        let (s, reads) := applyRule env p .childProcessExec (childEvidence ppid id) s e.clockReads
        (s, { e.put s with clockReads := reads })
      else (s, e)

/-- `_runtime_state`: the live state of the event's process, or a new one. -/
def runtimeState (event : Mapping F) (e : Engine T F) :
    Except PyExc (Option (ExecutionState T F)) × Engine T F :=
  match pidOf event with
  | .error x => (.error x, e)
  | .ok pid =>
      if pid ≤ 0 then (.ok none, e)
      else
        match e.states.get? pid with
        | some s => (.ok (some s), e)
        | none =>
            match intOr event "ppid" 0 with
            | .error x => (.error x, e)
            | .ok ppid =>
                let (parentId, e) := parentOf env p ppid e
                match intOr event "uid" 0 with
                | .error x => (.error x, e)
                | .ok uid =>
                    let (s, e) := createRuntimeState env p event pid ppid uid parentId e
                    (.ok (some s), e)

/-- `last_seen`, `ppid` and `uid` of every ingested event; a conversion may raise in between. -/
def touch (event : Mapping F) (now : T) (s : ExecutionState T F) :
    Except PyExc Unit × ExecutionState T F :=
  let s := { s with lastSeenMonotonic := now }
  match intOr event "ppid" s.ppid with
  | .error x => (.error x, s)
  | .ok ppid =>
      let s := { s with ppid := ppid }
      match intOr event "uid" s.uid with
      | .error x => (.error x, s)
      | .ok uid => (.ok (), { s with uid := uid })

/-- The evidence of `EXECUTABLE_IDENTIFIER_MISMATCH`. -/
def mismatchEvidence (s : ExecutionState T F) : Json F :=
  .obj [
    (py "fanotify_path", (s.executablePath.map Json.str).getD .null),
    (py "ebpf_identifier", (s.executableIdentifier.map Json.str).getD .null)]

/-- `timestamp or default`. -/
def timestampOr (timestamp : Int) (default : Option Int) : Option Int :=
  if timestamp = 0 then default else some timestamp

/-- The assignments of the `PROCESS_EXEC` branch. -/
def markExec (event : Mapping F) (timestamp : Int) (s : ExecutionState T F) :
    ExecutionState T F :=
  { s with
    status := .active
    execTimestampNs := timestampOr timestamp s.execTimestampNs
    executableIdentifier := nonEmptyText event "executable_identifier" }

/-- The end of the `PROCESS_EXEC` branch, after a possible change of generation. -/
def observeExec (event : Mapping F) (timestamp : Int) (s : ExecutionState T F) (reads : Nat) :
    ExecutionState T F × Nat :=
  let s := markExec event timestamp s
  if lexicallySame s.executablePath s.executableIdentifier then (s, reads)
  else applyRule env p .executableIdentifierMismatch (mismatchEvidence s) s reads

/-- The `FILE_WRITE`, `FILE_RENAME` and `NETWORK_CONNECT` branches share this shape: a key that is
    new to the state's set is added and scores the rule. -/
def observeKey (r : Rule) (key : PyStr) (evidence : Json F) (seen : List PyStr)
    (add : ExecutionState T F → List PyStr → ExecutionState T F) (s : ExecutionState T F)
    (reads : Nat) : ExecutionState T F × Nat :=
  if key ∈ seen then (s, reads)
  else applyRule env p r evidence (add s (seen ++ [key])) reads

def observeWrite (event : Mapping F) (s : ExecutionState T F) (reads : Nat) :
    ExecutionState T F × Nat :=
  match lookup (py "distinct_file_key") event with
  | none => (s, reads)
  | some .null => (s, reads)
  | some v =>
      observeKey env p .distinctFileWrite (pyStr v)
        (.obj [(py "distinct_file_key", .str (pyStr v))]) s.distinctFiles
        (fun s seen => { s with distinctFiles := seen }) s reads

def observeRename (event : Mapping F) (s : ExecutionState T F) (reads : Nat) :
    ExecutionState T F × Nat :=
  let identifier := truthyText event "executable_identifier" (py "UNKNOWN_IDENTIFIER")
  observeKey env p .fileRename identifier
    (.obj [(py "identifier", .str identifier), (py "path_capability", .str (py "IDENTIFIER_ONLY"))])
    s.renameIdentifiers (fun s seen => { s with renameIdentifiers := seen }) s reads

def observeConnect (event : Mapping F) (s : ExecutionState T F) (reads : Nat) :
    ExecutionState T F × Nat :=
  let endpoint := endpointOf event
  observeKey env p .outboundConnection endpoint (.obj [(py "endpoint", .str endpoint)])
    s.outboundConnections (fun s seen => { s with outboundConnections := seen }) s reads

/-- The `PROCESS_EXIT` branch; the status is set before the timestamp is converted. -/
def observeExit (event : Mapping F) (now : T) (s : ExecutionState T F) :
    Except PyExc Unit × ExecutionState T F :=
  let s := { s with status := .exited }
  match intOr event "timestamp_ns" 0 with
  | .error x => (.error x, s)
  | .ok timestamp =>
      (.ok (), { s with
        exitTimestampNs := timestampOr timestamp none
        exitedMonotonic := some now
        terminalReason := some (py "PROCESS_EXIT_OBSERVED") })

/-- The generation check of the `PROCESS_EXEC` branch. `_runtime_state` cannot reject the event the
    second time: its process id was accepted before. -/
def replaceGeneration (event : Mapping F) (timestamp : Int) (s : ExecutionState T F)
    (e : Engine T F) : Except PyExc (Option (ExecutionState T F)) × Engine T F :=
  match s.execTimestampNs with
  | none => (.ok (some s), e)
  | some previous =>
      if previous < timestamp then
        runtimeState env p event (e.archive s.pid (py "PID_EXEC_GENERATION_REPLACED"))
      else (.ok (some s), e)

/-- The closing `_recalculate` of an ingested event and its answer. -/
def finishIngest (event : Mapping F) (s : ExecutionState T F) (reads : Nat) (e : Engine T F) :
    Except PyExc (Answer T F) × Engine T F :=
  let (s, reads) := recalculate env p (eventReason event) s reads
  (.ok (.ingested s), { e.put s with clockReads := reads })

/-- The branches of `_ingest_runtime_event` on the event's kind. -/
def ingestKind (event : Mapping F) (now : T) (s : ExecutionState T F) (e : Engine T F) :
    Except PyExc (Answer T F) × Engine T F :=
  match kindOf event with
  | .processExec =>
      match intOr event "timestamp_ns" 0 with
      | .error x => (.error x, e)
      | .ok timestamp =>
          match replaceGeneration env p event timestamp s e with
          | (.error x, e) => (.error x, e)
          | (.ok none, e) => (.error .assertionError, e)
          | (.ok (some s), e) =>
              let (s, reads) := observeExec env p event timestamp s e.clockReads
              finishIngest env p event s reads e
  | .fileWrite =>
      let (s, reads) := observeWrite env p event s e.clockReads
      finishIngest env p event s reads e
  | .fileRename =>
      let (s, reads) := observeRename env p event s e.clockReads
      finishIngest env p event s reads e
  | .networkConnect =>
      let (s, reads) := observeConnect env p event s e.clockReads
      finishIngest env p event s reads e
  | .processExit =>
      match observeExit event now s with
      | (.error x, s) => (.error x, e.put s)
      | (.ok (), s) => finishIngest env p event s e.clockReads e
  | .other _ => finishIngest env p event s e.clockReads e

/-- `_ingest_runtime_event`. -/
def ingestRuntimeEvent (event : Mapping F) (e : Engine T F) :
    Except PyExc (Answer T F) × Engine T F :=
  let e := (expire env p none e).2
  match runtimeState env p event e with
  | (.error x, e) => (.error x, e)
  | (.ok none, e) => (.ok (.rejected (py "MISSING_PROCESS_ID")), e)
  | (.ok (some s), e) =>
      let now := env.clock e.clockReads
      let e := e.readClock
      match touch event now s with
      | (.error x, s) => (.error x, e.put s)
      | (.ok (), s) => ingestKind env p event now s (e.put s)

/-- `record_action_result`. -/
def recordActionResult (pid : Int) (correlationId : PyStr) (result : Mapping F) (e : Engine T F) :
    Bool × Engine T F :=
  match e.states.get? pid with
  | none => (false, e)
  | some s =>
      if s.correlationId ≠ correlationId then (false, e)
      else
        (true, e.readClock.put { s with
          lastActionResult := some result
          actionExecutionStatus := truthyText result "status" (py "UNKNOWN")
          lastSeenMonotonic := env.clock e.clockReads })

/-! ## Runs -/

/-- The public calls that change the engine. -/
inductive Call (T F : Type) where
  | registerPreExecution (record : Mapping F)
  | ingestRuntimeEvent (event : Mapping F)
  | expire (now : Option T)
  | recordActionResult (pid : Int) (correlationId : PyStr) (result : Mapping F)

def perform (c : Call T F) (e : Engine T F) : Except PyExc (Answer T F) × Engine T F :=
  match c with
  | .registerPreExecution record => Elyra.Correlation.registerPreExecution env p record e
  | .ingestRuntimeEvent event => Elyra.Correlation.ingestRuntimeEvent env p event e
  | .expire now =>
      let (n, e) := Elyra.Correlation.expire env p now e
      (.ok (.expired n), e)
  | .recordActionResult pid correlationId result =>
      let (ok, e) := Elyra.Correlation.recordActionResult env pid correlationId result e
      (.ok (.recorded ok), e)

/-- The engine after a sequence of calls; the callers' lock makes each call one step. -/
def runCalls (calls : List (Call T F)) (e : Engine T F) : Engine T F :=
  calls.foldl (fun e c => (perform env p c e).2) e

end Operations

end Elyra.Correlation
