import Elyra.Correlation.Invariant
import Elyra.Ebpf.Event

set_option autoImplicit false
set_option linter.unusedSectionVars false

/-! # What a call hands out

A call that accepts an event answers with `to_dict` of the state it touched, and that mapping is all
the response engine sees. Two things hold of every answer: an event the monitors build is answered
and never raises, and the combined score of the state lies between 0 and 100. The range does not
follow from one call: it needs that no state ever carries a negative score or weight, which every
call keeps. -/

namespace Elyra.Correlation

open Elyra.Python Elyra.Ebpf

variable {T F : Type}

/-! ## The snapshot -/

def Source.text : Source → PyStr
  | .fanotify => py "FANOTIFY"
  | .runtimeOnly => py "RUNTIME_ONLY"
  | .fanotifyLateBound => py "FANOTIFY_LATE_BOUND"

def Status.text : Status → PyStr
  | .pendingExec => py "PENDING_EXEC"
  | .active => py "ACTIVE"
  | .exited => py "EXITED"
  | .deniedPreExecution => py "DENIED_PRE_EXECUTION"

def Action.text : Action → PyStr
  | .continueMonitoring => py "CONTINUE_MONITORING"
  | .alert => py "ALERT"
  | .terminate => py "TERMINATE"
  | .quarantine => py "QUARANTINE"
  | .deny => py "DENY"

/-- `RuntimeIndicator.to_dict`. -/
def RuntimeIndicator.toDict (i : RuntimeIndicator F) : Mapping F :=
  [(py "rule", .str i.rule.name), (py "weight", .int i.weight),
    (py "occurrence", .int i.occurrence), (py "maximum_occurrences", .int i.maximumOccurrences),
    (py "evidence", i.evidence), (py "description", .str i.description)]

/-- An entry of `transitions`; `seconds` is a clock reading as a value. -/
def Transition.toDict (seconds : T → Json F) (t : Transition T) : Mapping F :=
  [(py "from", .str t.src.text), (py "to", .str t.dst.text), (py "reason", .str t.reason),
    (py "combined_score", .int t.combinedScore),
    (py "timestamp_monotonic", seconds t.timestampMonotonic)]

/-- `ExecutionState.to_dict`. -/
def ExecutionState.toDict (seconds : T → Json F) (s : ExecutionState T F) : Mapping F :=
  [(py "schema_version", .str (py "1.0")),
    (py "correlation_id", .str s.correlationId),
    (py "generation", .int s.generation),
    (py "pid", .int s.pid),
    (py "tgid", .int s.tgid),
    (py "ppid", .int s.ppid),
    (py "uid", .int s.uid),
    (py "source", .str s.source.text),
    (py "status", .str s.status.text),
    (py "executable_path", optText s.executablePath),
    (py "executable_identifier", optText s.executableIdentifier),
    (py "pre_execution_score", .int s.preExecutionScore),
    (py "runtime_score", .int s.runtimeScore),
    (py "combined_score", .int s.combinedScore),
    (py "pre_execution_decision", .str s.preExecutionDecision),
    (py "recommended_action", .str s.recommendedAction.text),
    (py "action_execution_status", .str s.actionExecutionStatus),
    (py "last_action_result",
      ((s.lastActionResult.filter fun r => r.length ≠ 0).map Json.obj).getD .null),
    (py "parent_correlation_id", optText s.parentCorrelationId),
    (py "exec_timestamp_ns", optInt s.execTimestampNs),
    (py "exit_timestamp_ns", optInt s.exitTimestampNs),
    (py "pre_execution_indicators", .arr (s.preExecutionIndicators.map Json.obj)),
    (py "runtime_indicators", .arr (s.runtimeIndicators.map fun i => .obj i.toDict)),
    (py "runtime_counters", .obj [
      (py "distinct_files", .int s.distinctFiles.length),
      (py "rename_identifiers", .int s.renameIdentifiers.length),
      (py "outbound_connections", .int s.outboundConnections.length),
      (py "rule_occurrences",
        .obj (s.ruleOccurrences.items.map fun kv => (kv.1.name, .int kv.2)))]),
    (py "transitions", .arr (s.transitions.map fun t => .obj (t.toDict seconds))),
    (py "terminal_reason", optText s.terminalReason)]

/-- `result.get("state")` of an answer that was accepted. -/
def Answer.state? : Answer T F → Option (ExecutionState T F)
  | .registered _ s => some s
  | .ingested s => some s
  | _ => none

/-! ## The range of the scores -/

variable [Zero T] [Min T] [Sub T] [LE T] [DecidableLE T] [LT T] [DecidableLT T]
variable [FloatNum F]
variable {env : Env T} {p : AcceptedPolicy T}

/-- No score of the state is negative, and the combined one is capped. -/
structure InRange (s : ExecutionState T F) : Prop where
  preScore : 0 ≤ s.preExecutionScore
  weight : 0 ≤ indicatorWeight s
  nonneg : 0 ≤ s.combinedScore
  capped : s.combinedScore ≤ 100

theorem recalculate_inRange (reason : PyStr) {s : ExecutionState T F}
    (hpre : 0 ≤ s.preExecutionScore) (hweight : 0 ≤ indicatorWeight s) (reads : Nat) :
    InRange (recalculate env p reason s reads).1 := by
  obtain ⟨ts, h⟩ := recalculate_fst env p reason s reads
  have hmax := p.facts.scoreMaximum
  have hcombined : (recalculate env p reason s reads).1.combinedScore =
      min 100 (s.preExecutionScore + min 100 (indicatorWeight s)) := by
    rw [h]
    simp only [rescored, hmax, indicatorWeight]
  refine ⟨?_, ?_, ?_, ?_⟩
  · rw [h]
    exact hpre
  · rw [h]
    exact hweight
  · rw [hcombined]
    omega
  · rw [hcombined]
    omega

/-- A mutation that leaves the evidence and the combined score alone. -/
theorem InRange.of_same {s s' : ExecutionState T F} (h : InRange s)
    (hpre : s'.preExecutionScore = s.preExecutionScore)
    (hind : s'.runtimeIndicators = s.runtimeIndicators)
    (hcomb : s'.combinedScore = s.combinedScore) : InRange s' := by
  refine ⟨hpre ▸ h.preScore, ?_, hcomb ▸ h.nonneg, hcomb ▸ h.capped⟩
  simpa only [indicatorWeight, hind] using h.weight

theorem applyRule_inRange (r : Rule) (evidence : Json F) {s : ExecutionState T F} (h : InRange s)
    (reads : Nat) : InRange (applyRule env p r evidence s reads).1 := by
  unfold applyRule
  dsimp only
  split
  · exact h
  · have hspec := (p.spec_facts r).2.1
    have hpre : 0 ≤ s.preExecutionScore := h.preScore
    have hweight := h.weight
    apply recalculate_inRange
    · exact hpre
    · simp only [indicatorWeight, List.map_append, List.sum_append, List.map_cons, List.map_nil,
        List.sum_cons, List.sum_nil] at hweight ⊢
      omega

theorem touch_inRange (event : Mapping F) (now : T) {s : ExecutionState T F} (h : InRange s) :
    InRange (touch event now s).2 := by
  unfold touch
  dsimp only
  split
  · exact h.of_same rfl rfl rfl
  · split <;> exact h.of_same rfl rfl rfl

theorem observeExec_inRange (event : Mapping F) (timestamp : Int) {s : ExecutionState T F}
    (h : InRange s) (reads : Nat) : InRange (observeExec env p event timestamp s reads).1 := by
  have hmark : InRange (markExec event timestamp s) := h.of_same rfl rfl rfl
  unfold observeExec
  dsimp only
  split
  · exact hmark
  · exact applyRule_inRange _ _ hmark reads

theorem observeKey_inRange (r : Rule) (key : PyStr) (evidence : Json F) (seen : List PyStr)
    {add : ExecutionState T F → List PyStr → ExecutionState T F} {s : ExecutionState T F}
    (h : InRange s) (hadd : ∀ seen, InRange (add s seen)) (reads : Nat) :
    InRange (observeKey env p r key evidence seen add s reads).1 := by
  unfold observeKey
  split
  · exact h
  · exact applyRule_inRange r evidence (hadd _) reads

theorem observeWrite_inRange (event : Mapping F) {s : ExecutionState T F} (h : InRange s)
    (reads : Nat) : InRange (observeWrite env p event s reads).1 := by
  unfold observeWrite
  split
  · exact h
  · exact h
  · exact observeKey_inRange _ _ _ _ h (fun _ => h.of_same rfl rfl rfl) reads

theorem observeRename_inRange (event : Mapping F) {s : ExecutionState T F} (h : InRange s)
    (reads : Nat) : InRange (observeRename env p event s reads).1 :=
  observeKey_inRange _ _ _ _ h (fun _ => h.of_same rfl rfl rfl) reads

theorem observeConnect_inRange (event : Mapping F) {s : ExecutionState T F} (h : InRange s)
    (reads : Nat) : InRange (observeConnect env p event s reads).1 :=
  observeKey_inRange _ _ _ _ h (fun _ => h.of_same rfl rfl rfl) reads

theorem observeExit_inRange (event : Mapping F) (now : T) {s : ExecutionState T F}
    (h : InRange s) : InRange (observeExit event now s).2 := by
  unfold observeExit
  dsimp only
  split <;> exact h.of_same rfl rfl rfl

/-! ### The engine -/

/-- Every live state is in range. -/
def Engine.InRange (e : Engine T F) : Prop :=
  ∀ pid s, e.states.get? pid = some s → Elyra.Correlation.InRange s

theorem clock_inRange {e : Engine T F} (he : e.InRange) (n : Nat) :
    Engine.InRange { e with clockReads := n } := he

theorem readClock_inRange {e : Engine T F} (he : e.InRange) : e.readClock.InRange := he

theorem Engine.InRange.put {e : Engine T F} (he : e.InRange) {s : ExecutionState T F}
    (hs : Elyra.Correlation.InRange s) : (e.put s).InRange := by
  intro pid s' h
  by_cases hpid : pid = s.pid
  · subst hpid
    rw [Engine.put, Dict.get?_set_self, Option.some.injEq] at h
    exact h ▸ hs
  · rw [Engine.put, Dict.get?_set_ne _ hpid] at h
    exact he pid s' h

theorem Engine.InRange.archive {e : Engine T F} (he : e.InRange) (pid : Int) (reason : PyStr) :
    (e.archive pid reason).InRange := by
  unfold Engine.archive
  split
  · exact he
  · intro pid' s' h
    exact he pid' s' (Dict.get?_of_pop h).2

theorem Engine.InRange.evict {e : Engine T F} (he : e.InRange) :
    (Elyra.Correlation.evict p e).InRange := by
  unfold Elyra.Correlation.evict
  split
  · split
    · exact he
    · exact he.archive _ _
  · exact he

theorem Engine.InRange.expire {e : Engine T F} (he : e.InRange) (now : Option T) :
    (Elyra.Correlation.expire env p now e).2.InRange := by
  have hfold : ∀ (expired : List (Int × PyStr)) (e : Engine T F), e.InRange →
      (expired.foldl (fun e x => e.archive x.1 x.2) e).InRange := by
    intro expired
    induction expired with
    | nil => exact fun e he => he
    | cons x expired ih => exact fun e he => ih _ (he.archive x.1 x.2)
  cases now with
  | none => exact hfold _ _ he
  | some now => exact hfold _ _ he

theorem newState_inRange {e : Engine T F} (he : e.InRange) {a : NewState F}
    (ha : 0 ≤ a.preExecutionScore) :
    InRange (newState env p a e).1 ∧ (newState env p a e).2.InRange := by
  have hs : InRange (newState env p a e).1 := recalculate_inRange _ ha le_rfl _
  refine ⟨hs, fun pid s h => ?_⟩
  by_cases hpid : pid = a.pid
  · subst hpid
    have hself : (newState env p a e).2.states.get? a.pid = some (newState env p a e).1 :=
      Dict.get?_set_self ..
    rw [hself, Option.some.injEq] at h
    exact h ▸ hs
  · have hother : (newState env p a e).2.states.get? pid = (evict p e).states.get? pid :=
      Dict.get?_set_ne _ hpid _
    rw [hother] at h
    exact he.evict pid s h

/-- A call keeps the live states in range, and answers with a state in range. -/
structure Ranged (x : Except PyExc (Answer T F) × Engine T F) : Prop where
  engine : x.2.InRange
  answer : ∀ a s, x.1 = .ok a → a.state? = some s → InRange s

theorem Ranged.of_error {e : Engine T F} (he : e.InRange) (x : PyExc) : Ranged (.error x, e) :=
  ⟨he, fun _ _ h => nomatch h⟩

theorem Ranged.of_answer {e : Engine T F} (he : e.InRange) {a : Answer T F}
    (ha : ∀ s, a.state? = some s → InRange s) : Ranged (.ok a, e) := by
  refine ⟨he, fun a' s h hs => ?_⟩
  cases h
  exact ha s hs

theorem bindRegistration_ranged {e : Engine T F} (he : e.InRange) {r : Registration F}
    (hr : 0 ≤ r.score) (pid : Int) (now : T) :
    Ranged (.ok (bindRegistration env p r pid now e).1, (bindRegistration env p r pid now e).2) := by
  have hnew : ∀ e : Engine T F, e.InRange →
      Ranged (.ok (.registered false (newState env p (r.newState pid) e).1),
        (newState env p (r.newState pid) e).2) := by
    intro e he
    obtain ⟨hs, he'⟩ : InRange (newState env p (r.newState pid) e).1 ∧
        (newState env p (r.newState pid) e).2.InRange := newState_inRange he hr
    refine Ranged.of_answer he' fun s h => ?_
    cases h
    exact hs
  unfold bindRegistration
  split
  · next s hs =>
    split
    · have hs' : InRange (recalculate env p (py "FANOTIFY_LATE_BINDING") (bindLate r now s)
          e.clockReads).1 := by
        apply recalculate_inRange
        · exact hr
        · exact (he pid s hs).weight
      refine Ranged.of_answer (clock_inRange (he.put hs') _) fun s' h => ?_
      cases h
      exact hs'
    · exact hnew _ (he.archive _ _)
  · exact hnew _ he

theorem registerPreExecution_ranged {e : Engine T F} (he : e.InRange) (record : Mapping F) :
    Ranged (registerPreExecution env p record e) := by
  have he' : (expire env p none e).2.InRange := he.expire none
  unfold registerPreExecution
  dsimp only
  split
  · exact Ranged.of_error he' _
  · split
    · exact Ranged.of_answer he' fun s h => nomatch h
    · split
      · exact Ranged.of_error (readClock_inRange he') _
      · next r hr =>
        exact bindRegistration_ranged (readClock_inRange he') (registrationOf_score_nonneg hr) _ _

theorem createRuntimeState_inRange {e : Engine T F} (he : e.InRange) (event : Mapping F)
    (pid ppid uid : Int) (parentId : Option PyStr) :
    InRange (createRuntimeState env p event pid ppid uid parentId e).1 ∧
      (createRuntimeState env p event pid ppid uid parentId e).2.InRange := by
  obtain ⟨hs, he'⟩ : InRange (newState env p (runtimeNewState pid ppid uid parentId) e).1 ∧
      (newState env p (runtimeNewState pid ppid uid parentId) e).2.InRange :=
    newState_inRange he le_rfl
  unfold createRuntimeState
  cases parentId with
  | none => exact ⟨hs, he'⟩
  | some id =>
      dsimp only
      split
      · exact ⟨applyRule_inRange _ _ hs _, Engine.InRange.put he' (applyRule_inRange _ _ hs _)⟩
      · exact ⟨hs, he'⟩

theorem parentOf_inRange {e : Engine T F} (he : e.InRange) (ppid : Int) :
    (parentOf env p ppid e).2.InRange := by
  unfold parentOf
  split
  · exact he
  · exact he

theorem runtimeState_inRange {e : Engine T F} (he : e.InRange) (event : Mapping F) :
    (runtimeState env p event e).2.InRange ∧
      ∀ s, (runtimeState env p event e).1 = .ok (some s) → InRange s := by
  unfold runtimeState
  split
  · exact ⟨he, fun s h => nomatch h⟩
  · split
    · exact ⟨he, fun s h => nomatch h⟩
    · split
      · next pid hpid s hs =>
        refine ⟨he, fun s' h => ?_⟩
        cases h
        exact he _ _ hs
      · split
        · exact ⟨he, fun s h => nomatch h⟩
        · next ppid _ =>
          dsimp only
          split
          · exact ⟨parentOf_inRange he ppid, fun s h => nomatch h⟩
          · refine ⟨(createRuntimeState_inRange (parentOf_inRange he ppid) ..).2, fun s h => ?_⟩
            cases h
            exact (createRuntimeState_inRange (parentOf_inRange he ppid) ..).1

theorem finishIngest_ranged {e : Engine T F} (he : e.InRange) (event : Mapping F)
    {s : ExecutionState T F} (hs : InRange s) (reads : Nat) :
    Ranged (finishIngest env p event s reads e) := by
  have hs' : InRange (recalculate env p (eventReason event) s reads).1 :=
    recalculate_inRange _ hs.preScore hs.weight reads
  refine Ranged.of_answer (clock_inRange (he.put hs') _) fun s' h => ?_
  cases h
  exact hs'

theorem replaceGeneration_inRange {e : Engine T F} (he : e.InRange) (event : Mapping F)
    (timestamp : Int) {s : ExecutionState T F} (hs : InRange s) :
    (replaceGeneration env p event timestamp s e).2.InRange ∧
      ∀ s', (replaceGeneration env p event timestamp s e).1 = .ok (some s') → InRange s' := by
  have hsame : e.InRange ∧ ∀ s', (Except.ok (some s) : Except PyExc _) = .ok (some s') →
      InRange s' := by
    refine ⟨he, fun s' h => ?_⟩
    cases h
    exact hs
  unfold replaceGeneration
  split
  · exact hsame
  · split
    · exact runtimeState_inRange (he.archive _ _) event
    · exact hsame

theorem ingestKind_ranged {e : Engine T F} (he : e.InRange) (event : Mapping F) (now : T)
    {s : ExecutionState T F} (hs : InRange s) : Ranged (ingestKind env p event now s e) := by
  unfold ingestKind
  split
  · split
    · exact Ranged.of_error he _
    · next timestamp _ =>
      have hx : (replaceGeneration env p event timestamp s e).2.InRange ∧ ∀ s',
          (replaceGeneration env p event timestamp s e).1 = .ok (some s') → InRange s' :=
        replaceGeneration_inRange he event timestamp hs
      generalize replaceGeneration env p event timestamp s e = x at hx
      obtain ⟨he', hs'⟩ := hx
      obtain ⟨r, e'⟩ := x
      match r with
      | .error x => exact Ranged.of_error he' x
      | .ok none => exact Ranged.of_error he' _
      | .ok (some s') =>
          exact finishIngest_ranged he' event (observeExec_inRange _ _ (hs' s' rfl) _) _
  · exact finishIngest_ranged he event (observeWrite_inRange event hs _) _
  · exact finishIngest_ranged he event (observeRename_inRange event hs _) _
  · exact finishIngest_ranged he event (observeConnect_inRange event hs _) _
  · have hs' := observeExit_inRange event now hs
    generalize observeExit event now s = x at hs'
    obtain ⟨r, s'⟩ := x
    cases r with
    | error x => exact Ranged.of_error (he.put hs') x
    | ok _ => exact finishIngest_ranged he event hs' _
  · exact finishIngest_ranged he event hs _

theorem ingestRuntimeEvent_ranged {e : Engine T F} (he : e.InRange) (event : Mapping F) :
    Ranged (ingestRuntimeEvent env p event e) := by
  have hx : (runtimeState env p event (expire env p none e).2).2.InRange ∧ ∀ s,
      (runtimeState env p event (expire env p none e).2).1 = .ok (some s) → InRange s :=
    runtimeState_inRange (he.expire none) event
  unfold ingestRuntimeEvent
  dsimp only
  generalize runtimeState env p event (expire env p none e).2 = x at hx
  obtain ⟨r, e'⟩ := x
  obtain ⟨he', hs⟩ := hx
  match r with
  | .error x => exact Ranged.of_error he' x
  | .ok none => exact Ranged.of_answer he' fun s h => nomatch h
  | .ok (some s) =>
      have hs' : InRange (touch event (env.clock e'.clockReads) s).2 := touch_inRange _ _ (hs s rfl)
      have hput : (e'.readClock.put (touch event (env.clock e'.clockReads) s).2).InRange :=
        Engine.InRange.put (readClock_inRange he') hs'
      simp only
      generalize touch event (env.clock e'.clockReads) s = x at hs' hput
      obtain ⟨r, s'⟩ := x
      cases r with
      | error x => exact Ranged.of_error hput x
      | ok _ => exact ingestKind_ranged hput event _ hs'

theorem recordActionResult_inRange {e : Engine T F} (he : e.InRange) (pid : Int)
    (correlationId : PyStr) (result : Mapping F) :
    (recordActionResult env pid correlationId result e).2.InRange := by
  unfold recordActionResult
  split
  · exact he
  · next s hs =>
    split
    · exact he
    · exact Engine.InRange.put he ((he pid s hs).of_same rfl rfl rfl)

/-! ## Events of the monitors are answered -/

/-- A record whose process id and fields can be read is answered. -/
theorem registerPreExecution_answers {record : Mapping F} {pid : Int} {r : Registration F}
    (hpid : pidOf record = .ok pid) (hr : registrationOf record = .ok r) (e : Engine T F) :
    ∃ a, (registerPreExecution env p record e).1 = .ok a := by
  unfold registerPreExecution
  simp only [hpid, hr]
  split
  · exact ⟨_, rfl⟩
  · exact ⟨_, rfl⟩

/-- The process id of an eBPF record converts, also when the thread group is 0. -/
theorem pidOf_record_ok (event : EbpfEvent) : ∃ n, pidOf (event.record : Mapping F) = .ok n := by
  by_cases htgid : 0 < event.tgid
  · exact ⟨event.tgid, pidOf_record event htgid⟩
  · have hlook : lookup (py "tgid") (event.record : Mapping F) = some (.int event.tgid) := rfl
    have hpid : lookup (py "pid") (event.record : Mapping F) = some (.int event.pid) := rfl
    have hzero : event.tgid = 0 := by omega
    have hnone : getTruthy (event.record : Mapping F) "tgid" = none := by
      rw [getTruthy, hlook, hzero]
      rfl
    unfold pidOf
    rw [hnone, Option.none_or, getTruthy, hpid]
    by_cases h : event.pid = 0
    · exact ⟨0, by simp [Option.filter, truthy, h]⟩
    · exact ⟨event.pid, by simp [Option.filter, truthy, h, pyInt]⟩

/-- The state of an eBPF record's process is found or created, unless it names no process. -/
theorem runtimeState_answers (event : EbpfEvent) (e : Engine T F) :
    (runtimeState env p event.record e).1 = .ok none ∨
      (∃ n, pidOf (event.record : Mapping F) = .ok n ∧ 0 < n) ∧
        ∃ s, (runtimeState env p event.record e).1 = .ok (some s) := by
  obtain ⟨n, hn⟩ := pidOf_record_ok (F := F) event
  obtain ⟨⟨ppid, hppid⟩, ⟨uid, huid⟩, -⟩ := intOr_record (F := F) event 0
  unfold runtimeState
  simp only [hn, hppid, huid]
  by_cases hpos : n ≤ 0
  · rw [if_pos hpos]
    exact .inl rfl
  · rw [if_neg hpos]
    refine .inr ⟨⟨n, rfl, not_le.1 hpos⟩, ?_⟩
    split <;> exact ⟨_, rfl⟩

theorem replaceGeneration_answers (event : EbpfEvent) (timestamp : Int)
    (s : ExecutionState T F) (e : Engine T F)
    (hpos : ∃ n, pidOf (event.record : Mapping F) = .ok n ∧ 0 < n) :
    ∃ s', (replaceGeneration env p event.record timestamp s e).1 = .ok (some s') := by
  obtain ⟨n, hn, hlt⟩ := hpos
  unfold replaceGeneration
  split
  · exact ⟨s, rfl⟩
  · split
    · -- the process id was accepted before, so it cannot be rejected now
      rcases runtimeState_answers event
        (e.archive s.pid (py "PID_EXEC_GENERATION_REPLACED")) with hnone | ⟨-, hsome⟩
      · unfold runtimeState at hnone
        simp only [hn, if_neg (not_le.2 hlt)] at hnone
        split at hnone
        · cases hnone
        · obtain ⟨⟨ppid, hppid⟩, ⟨uid, huid⟩, -⟩ := intOr_record (F := F) event 0
          simp only [hppid, huid] at hnone
          cases hnone
      · exact hsome
    · exact ⟨s, rfl⟩

theorem touch_answers (event : EbpfEvent) (now : T) (s : ExecutionState T F) :
    (touch event.record now s).1 = .ok () := by
  obtain ⟨⟨ppid, hppid⟩, -, -⟩ := intOr_record (F := F) event s.ppid
  obtain ⟨-, ⟨uid, huid⟩, -⟩ := intOr_record (F := F) event s.uid
  unfold touch
  simp only [hppid, huid]

theorem ingestKind_record_answers (event : EbpfEvent) (now : T) (s : ExecutionState T F)
    (e : Engine T F) (hpos : ∃ n, pidOf (event.record : Mapping F) = .ok n ∧ 0 < n) :
    ∃ a, (ingestKind env p event.record now s e).1 = .ok a := by
  obtain ⟨-, -, timestamp, htimestamp⟩ := intOr_record (F := F) event 0
  have hfinish : ∀ (s : ExecutionState T F) (reads : Nat) (e : Engine T F),
      ∃ a, (finishIngest env p event.record s reads e).1 = .ok a := fun _ _ _ => ⟨_, rfl⟩
  unfold ingestKind
  split
  · simp only [htimestamp]
    obtain ⟨s', hs'⟩ : ∃ s', (replaceGeneration env p event.record timestamp s e).1 =
      .ok (some s') := replaceGeneration_answers event timestamp s e hpos
    generalize replaceGeneration env p event.record timestamp s e = x at hs'
    obtain ⟨r, e'⟩ := x
    cases hs'
    exact hfinish _ _ _
  · exact hfinish _ _ _
  · exact hfinish _ _ _
  · exact hfinish _ _ _
  · unfold observeExit
    simp only [htimestamp]
    exact hfinish _ _ _
  · exact hfinish _ _ _

/-- **Every event the collector publishes is answered.** -/
theorem ingestRuntimeEvent_answers (event : EbpfEvent) (e : Engine T F) :
    ∃ a, (ingestRuntimeEvent env p event.record e).1 = .ok a := by
  unfold ingestRuntimeEvent
  dsimp only
  have hstate : (runtimeState env p event.record (expire env p none e).2).1 = .ok none ∨
      (∃ n, pidOf (event.record : Mapping F) = .ok n ∧ 0 < n) ∧
        ∃ s, (runtimeState env p event.record (expire env p none e).2).1 = .ok (some s) :=
    runtimeState_answers event _
  generalize runtimeState env p event.record (expire env p none e).2 = x at hstate
  obtain ⟨r, e'⟩ := x
  rcases hstate with hnone | ⟨hpos, s, hs⟩
  · cases hnone
    exact ⟨_, rfl⟩
  · cases hs
    have htouch := touch_answers event (env.clock e'.clockReads) s
    simp only
    generalize touch event.record (env.clock e'.clockReads) s = x at htouch
    obtain ⟨r, s'⟩ := x
    cases htouch
    exact ingestKind_record_answers event _ _ _ hpos

end Elyra.Correlation
