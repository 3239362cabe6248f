import Elyra.Python.Builtins

set_option autoImplicit false

/-! # Correlation policy

`CorrelationPolicy` and its `validate`, as `correlation/engine.py` has them. An `AcceptedPolicy` is a
policy together with the fact that `validate` accepts it; every table lookup the engine makes on it
succeeds (`threshold`, `spec`), and what the engine relies on is proved here once: the score range,
the order of the thresholds, positive weights and caps.

Durations and clock readings are of a type `T` with the operations the code applies to floats and no
laws: what is proved without a law on `T` also holds of infinities and NaN. -/

namespace Elyra.Correlation

open Elyra.Python

structure RuntimeRuleSpec where
  rule : PyStr
  weight : Int
  maxOccurrences : Int
  description : PyStr

def RuntimeRuleSpec.maximumContribution (s : RuntimeRuleSpec) : Int := s.weight * s.maxOccurrences

structure CorrelationPolicy (T : Type) where
  schemaVersion : PyStr
  policyName : PyStr
  policyStatus : PyStr
  scoreMinimum : Int
  scoreMaximum : Int
  stateTtlSeconds : T
  exitedStateTtlSeconds : T
  lateBindingWindowSeconds : T
  inheritanceWindowSeconds : T
  maxStates : Int
  decisionThresholds : Dict PyStr Int
  runtimeRules : Dict PyStr RuntimeRuleSpec

/-- The decision thresholds. -/
inductive Threshold where
  | alertMin
  | terminateMin
  | quarantineMin
  deriving DecidableEq, Repr

def Threshold.name : Threshold → PyStr
  | .alertMin => py "alert_min"
  | .terminateMin => py "terminate_min"
  | .quarantineMin => py "quarantine_min"

def Threshold.all : List Threshold := [.alertMin, .terminateMin, .quarantineMin]

/-- The canonical rule set of Stage 10. -/
inductive Rule where
  | distinctFileWrite
  | fileRename
  | outboundConnection
  | childProcessExec
  | executableIdentifierMismatch
  deriving DecidableEq, Repr

def Rule.name : Rule → PyStr
  | .distinctFileWrite => py "DISTINCT_FILE_WRITE"
  | .fileRename => py "FILE_RENAME"
  | .outboundConnection => py "OUTBOUND_CONNECTION"
  | .childProcessExec => py "CHILD_PROCESS_EXEC"
  | .executableIdentifierMismatch => py "EXECUTABLE_IDENTIFIER_MISMATCH"

def Rule.all : List Rule :=
  [.distinctFileWrite, .fileRename, .outboundConnection, .childProcessExec,
    .executableIdentifierMismatch]

theorem Rule.mem_all (r : Rule) : r ∈ Rule.all := by cases r <;> decide

/-- `InvalidCorrelationConfiguration`, by the check that fails. -/
inductive InvalidConfiguration where
  | policyStatus
  | scoreRange
  | timeWindows
  | maxStates
  | thresholdNames
  | thresholdOrder
  | ruleNames
  | ruleKey (rule : PyStr)
  | ruleBounds (rule : PyStr)
  | ruleDescription (rule : PyStr)
  | unreachable
  deriving DecidableEq, Repr

def InvalidConfiguration.message : InvalidConfiguration → PyStr
  | .policyStatus => py "Stage 10 policy must be labelled PROVISIONAL_NOT_CALIBRATED"
  | .scoreRange => py "score range must be 0..100"
  | .timeWindows => py "all time windows must be positive"
  | .maxStates => py "max_states must be positive"
  | .thresholdNames =>
      py "decision thresholds must define alert_min, terminate_min and quarantine_min"
  | .thresholdOrder => py "decision thresholds must increase within the 0..100 score range"
  | .ruleNames => py "runtime rules do not match the Stage 10 canonical rule set"
  | .ruleKey r => py "rule key differs from embedded name: " ++ r
  | .ruleBounds r => py "rule " ++ r ++ py " must have positive weight and occurrence cap"
  | .ruleDescription r => py "rule " ++ r ++ py " has an empty description"
  | .unreachable => py "runtime rule maxima cannot reach quarantine_min"

/-- `set(mapping) == expected`. -/
def sameKeys {α : Type} (d : Dict PyStr α) (expected : List PyStr) : Bool :=
  (keys d.items).all (fun k => expected.contains k) && expected.all (fun k => (d.get? k).isSome)

/-- The checks `validate` makes on each rule. -/
def checkRule (id : PyStr) (spec : RuntimeRuleSpec) : Except InvalidConfiguration Unit :=
  if spec.rule ≠ id then .error (.ruleKey id)
  else if spec.weight ≤ 0 ∨ spec.maxOccurrences ≤ 0 then .error (.ruleBounds id)
  else if strip spec.description = [] then .error (.ruleDescription id)
  else .ok ()

def checkRules : List (PyStr × RuntimeRuleSpec) → Except InvalidConfiguration Unit
  | [] => .ok ()
  | (id, spec) :: rest =>
      match checkRule id spec with
      | .error e => .error e
      | .ok () => checkRules rest

section Validate

variable {T : Type} [Zero T] [Min T] [LE T] [DecidableLE T]

/-- `CorrelationPolicy.validate`. -/
def CorrelationPolicy.validate (p : CorrelationPolicy T) : Except InvalidConfiguration Unit :=
  if p.policyStatus ≠ py "PROVISIONAL_NOT_CALIBRATED" then .error .policyStatus
  else if (p.scoreMinimum, p.scoreMaximum) ≠ (0, 100) then .error .scoreRange
  else if min (min (min p.stateTtlSeconds p.exitedStateTtlSeconds) p.lateBindingWindowSeconds)
      p.inheritanceWindowSeconds ≤ 0 then .error .timeWindows
  else if p.maxStates ≤ 0 then .error .maxStates
  else if !sameKeys p.decisionThresholds (Threshold.all.map Threshold.name) then
    .error .thresholdNames
  else
    let alert := (p.decisionThresholds.get? Threshold.alertMin.name).getD 0
    let terminate := (p.decisionThresholds.get? Threshold.terminateMin.name).getD 0
    let quarantine := (p.decisionThresholds.get? Threshold.quarantineMin.name).getD 0
    if ¬ (0 < alert ∧ alert < terminate ∧ terminate < quarantine ∧ quarantine ≤ p.scoreMaximum) then
      .error .thresholdOrder
    else if !sameKeys p.runtimeRules (Rule.all.map Rule.name) then .error .ruleNames
    else
      match checkRules p.runtimeRules.items with
      | .error e => .error e
      | .ok () =>
          if (p.runtimeRules.values.map RuntimeRuleSpec.maximumContribution).sum < quarantine then
            .error .unreachable
          else .ok ()

/-- A policy that `validate` accepts. -/
structure AcceptedPolicy (T : Type) [Zero T] [Min T] [LE T] [DecidableLE T] where
  toPolicy : CorrelationPolicy T
  accepted : toPolicy.validate = .ok ()

/-! ## What acceptance gives -/

theorem checkRule_ok {id : PyStr} {spec : RuntimeRuleSpec} (h : checkRule id spec = .ok ()) :
    spec.rule = id ∧ 0 < spec.weight ∧ 0 < spec.maxOccurrences := by
  unfold checkRule at h
  split_ifs at h with h1 h2 h3
  push Not at h1 h2
  exact ⟨h1, h2.1, h2.2⟩

theorem checkRules_ok {rules : List (PyStr × RuntimeRuleSpec)} (h : checkRules rules = .ok ()) :
    ∀ r ∈ rules, checkRule r.1 r.2 = .ok () := by
  induction rules with
  | nil => intro r hr; exact absurd hr (by simp)
  | cons r rules ih =>
      obtain ⟨id, spec⟩ := r
      simp only [checkRules] at h
      split at h
      · exact absurd h (by simp)
      · next hr =>
        intro x hx
        rcases List.mem_cons.1 hx with rfl | hx
        · exact hr
        · exact ih h x hx

/-- Everything `validate` checks, once it returns. -/
structure PolicyFacts (p : CorrelationPolicy T) : Prop where
  scoreMaximum : p.scoreMaximum = 100
  maxStates : 0 < p.maxStates
  rules : ∀ r : Rule, ∃ spec, p.runtimeRules.get? r.name = some spec ∧ spec.rule = r.name ∧
    0 < spec.weight ∧ 0 < spec.maxOccurrences
  thresholds : ∃ a t q, p.decisionThresholds.get? Threshold.alertMin.name = some a ∧
    p.decisionThresholds.get? Threshold.terminateMin.name = some t ∧
    p.decisionThresholds.get? Threshold.quarantineMin.name = some q ∧
    0 < a ∧ a < t ∧ t < q ∧ q ≤ 100

theorem sameKeys_isSome {α : Type} {d : Dict PyStr α} {expected : List PyStr}
    (h : sameKeys d expected = true) {k : PyStr} (hk : k ∈ expected) :
    ∃ v, d.get? k = some v := by
  simp only [sameKeys, Bool.and_eq_true, List.all_eq_true] at h
  exact Option.isSome_iff_exists.1 (h.2 k hk)

theorem AcceptedPolicy.facts (p : AcceptedPolicy T) : PolicyFacts p.toPolicy := by
  have h := p.accepted
  unfold CorrelationPolicy.validate at h
  simp only at h
  split at h
  · exact absurd h (by simp)
  split at h
  · exact absurd h (by simp)
  next h2 =>
  split at h
  · exact absurd h (by simp)
  split at h
  · exact absurd h (by simp)
  next h4 =>
  split at h
  · exact absurd h (by simp)
  next h5 =>
  split at h
  · exact absurd h (by simp)
  next h6 =>
  split at h
  · exact absurd h (by simp)
  next h7 =>
  split at h
  · exact absurd h (by simp)
  next hrules =>
  simp only [ne_eq, not_not, Prod.mk.injEq] at h2
  simp only [Bool.not_eq_true, Bool.not_eq_false'] at h5 h7
  rw [not_not] at h6
  obtain ⟨a, ha⟩ := sameKeys_isSome h5 (k := Threshold.alertMin.name) (by decide)
  obtain ⟨t, ht⟩ := sameKeys_isSome h5 (k := Threshold.terminateMin.name) (by decide)
  obtain ⟨q, hq⟩ := sameKeys_isSome h5 (k := Threshold.quarantineMin.name) (by decide)
  simp only [ha, ht, hq, Option.getD_some, h2.2] at h6
  refine ⟨h2.2, not_le.1 h4, ?_, a, t, q, ha, ht, hq, h6⟩
  intro r
  obtain ⟨spec, hs⟩ := sameKeys_isSome h7 (k := r.name) (List.mem_map.2 ⟨r, r.mem_all, rfl⟩)
  have hr := checkRules_ok hrules (r.name, spec) (Dict.mem_items.2 hs)
  exact ⟨spec, hs, checkRule_ok hr⟩

/-- `self.policy.runtime_rules[rule_id]`. -/
def AcceptedPolicy.spec (p : AcceptedPolicy T) (r : Rule) : RuntimeRuleSpec :=
  (p.toPolicy.runtimeRules.get? r.name).getD ⟨r.name, 0, 0, []⟩

/-- `self.policy.decision_thresholds[name]`. -/
def AcceptedPolicy.threshold (p : AcceptedPolicy T) (t : Threshold) : Int :=
  (p.toPolicy.decisionThresholds.get? t.name).getD 0

/-- The table holds every rule: the default of `spec` is never taken, and the entry is positive. -/
theorem AcceptedPolicy.spec_facts (p : AcceptedPolicy T) (r : Rule) :
    p.toPolicy.runtimeRules.get? r.name = some (p.spec r) ∧ 0 < (p.spec r).weight ∧
      0 < (p.spec r).maxOccurrences := by
  obtain ⟨spec, hs, -, hw, hm⟩ := p.facts.rules r
  simp only [AcceptedPolicy.spec, hs, Option.getD_some]
  exact ⟨trivial, hw, hm⟩

theorem AcceptedPolicy.threshold_facts (p : AcceptedPolicy T) :
    0 < p.threshold .alertMin ∧ p.threshold .alertMin < p.threshold .terminateMin ∧
      p.threshold .terminateMin < p.threshold .quarantineMin ∧ p.threshold .quarantineMin ≤ 100 := by
  obtain ⟨a, t, q, ha, ht, hq, h⟩ := p.facts.thresholds
  simpa [AcceptedPolicy.threshold, ha, ht, hq] using h

end Validate

/-! ## The shipped policy -/

/-- `runtime_correlation.default.json`, with whole seconds. -/
def defaultPolicy : CorrelationPolicy ℤ :=
  { schemaVersion := py "1.0"
    policyName := py "ELYRA_STAGE10_RUNTIME_CORRELATION"
    policyStatus := py "PROVISIONAL_NOT_CALIBRATED"
    scoreMinimum := 0
    scoreMaximum := 100
    stateTtlSeconds := 300
    exitedStateTtlSeconds := 60
    lateBindingWindowSeconds := 5
    inheritanceWindowSeconds := 30
    maxStates := 4096
    decisionThresholds := ⟨[
      (Threshold.alertMin.name, 40),
      (Threshold.terminateMin.name, 70),
      (Threshold.quarantineMin.name, 90)], by decide⟩
    runtimeRules := ⟨[
      (Rule.distinctFileWrite.name, ⟨Rule.distinctFileWrite.name, 8, 4,
        py "The process modified a previously unseen file identifier."⟩),
      (Rule.fileRename.name, ⟨Rule.fileRename.name, 15, 2,
        py "The process attempted a file rename operation."⟩),
      (Rule.outboundConnection.name, ⟨Rule.outboundConnection.name, 20, 2,
        py "The process attempted an outbound IPv4 connection."⟩),
      (Rule.childProcessExec.name, ⟨Rule.childProcessExec.name, 10, 1,
        py "A runtime-only child process was linked to a monitored parent."⟩),
      (Rule.executableIdentifierMismatch.name, ⟨Rule.executableIdentifierMismatch.name, 20, 1,
        py "The fanotify path and eBPF executable identifier did not match lexically."⟩)],
      by decide⟩ }

theorem defaultPolicy_validate : defaultPolicy.validate = .ok () := by rfl

def acceptedDefaultPolicy : AcceptedPolicy ℤ := ⟨defaultPolicy, defaultPolicy_validate⟩

end Elyra.Correlation
