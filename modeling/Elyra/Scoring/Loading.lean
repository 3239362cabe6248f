import Elyra.Scoring.Gate

set_option autoImplicit false
set_option linter.unusedSectionVars false

/-! # Loading a policy

`ScoringPolicy.from_mapping`, and what an accepted policy can score. `validate` checks the rules that are
there; `score` looks a rule up when the scan has the evidence for it. Scoring returns exactly if the
policy has what the scan asks for (`score_returns_iff`). -/

namespace Elyra.Scoring

open Elyra.Python

variable {F : Type} [OrderedFloat F]

/-! ## `from_mapping` -/

/-- `value[key]` -/
def subscript (value : Json F) (key : PyStr) : Except ScoringError (Json F) :=
  match value with
  | .obj members =>
      match lookup key members with
      | some v => .ok v
      | none => .error (.keyError key)
  | _ => .error (.conversion .typeError)

/-- `value.items()` -/
def itemsOf (value : Json F) : Except ScoringError (Mapping F) :=
  match value with
  | .obj members => .ok members
  | _ => .error (.conversion .attributeError)

/-- `key in value`, for a value that has been subscripted. -/
def hasKey (value : Json F) (key : PyStr) : Bool :=
  match value with
  | .obj members => (lookup key members).isSome
  | _ => false

/-- The `RuleSpec` of an item of `raw_rules`. -/
def readRule (ruleId : PyStr) (spec : Json F) : Except ScoringError (RuleSpec F) := do
  let category ← subscript spec (py "category")
  let weight ← (pyInt (← subscript spec (py "weight"))).mapError .conversion
  let description ← subscript spec (py "description")
  let threshold ←
    if hasKey spec (py "threshold") then do
      let value ← subscript spec (py "threshold")
      some <$> (pyFloat value).mapError .conversion
    else pure none
  return ⟨ruleId, pyStr category, weight, pyStr description, threshold⟩

/-- A dictionary comprehension over the items of a mapping. -/
def comprehend {α : Type} (f : PyStr → Json F → Except ScoringError α) (members : Mapping F) :
    Except ScoringError (Dict PyStr α) :=
  members.foldlM (fun d kv => do return d.set kv.1 (← f kv.1 kv.2)) Dict.empty

/-- `int(value)` of an item. -/
def readInt (_ : PyStr) (value : Json F) : Except ScoringError Int :=
  (pyInt value).mapError .conversion

/-- The policy that the mapping describes, before it is validated. -/
def readPolicy (data : Mapping F) : Except ScoringError (ScoringPolicy F) := do
  let data := Json.obj data
  let rawRules ← subscript data (py "rules")
  let rules ← comprehend readRule (← itemsOf rawRules)
  let schemaVersion ← subscript data (py "schema_version")
  let policyName ← subscript data (py "policy_name")
  let policyStatus ← subscript data (py "policy_status")
  let scoreMinimum ← readInt [] (← subscript data (py "score_minimum"))
  let scoreMaximum ← readInt [] (← subscript data (py "score_maximum"))
  let categoryCaps ← comprehend readInt (← itemsOf (← subscript data (py "category_caps")))
  let decisionThresholds ← comprehend readInt (← itemsOf (← subscript data (py "decision_thresholds")))
  return ⟨pyStr schemaVersion, pyStr policyName, pyStr policyStatus, scoreMinimum, scoreMaximum,
    categoryCaps, decisionThresholds, rules⟩

/-- The handler of `from_mapping`: what it does not name, an `OverflowError` of a conversion, goes
    through. `describe` is `str(exc)`. -/
def configurationError (describe : ScoringError → PyStr) : ScoringError → ScoringError
  | .conversion .overflowError => .conversion .overflowError
  | e => .invalidScoringConfiguration (py "invalid scoring configuration: " ++ describe e)

/-- `from_mapping` -/
def fromMapping (describe : ScoringError → PyStr) (data : Mapping F) :
    Except ScoringError (ScoringPolicy F) := do
  let policy ← (readPolicy data).mapError (configurationError describe)
  policy.validate
  return policy

theorem fromMapping_ok {describe : ScoringError → PyStr} {data : Mapping F} {policy : ScoringPolicy F}
    (h : fromMapping describe data = .ok policy) : policy.validate = .ok () := by
  obtain ⟨policy', -, h⟩ := bind_ok.1 h
  obtain ⟨u, hvalid, h⟩ := bind_ok.1 h
  obtain rfl := Except.ok.inj h
  exact hvalid

/-! ## What a scan asks for -/

namespace ScoringPolicy

/-- The policy has a rule of that name. -/
def Has (policy : ScoringPolicy F) (rule : Rule) : Prop := (policy.rules.get? rule.text).isSome = true

/-- The policy has a rule of that name with a threshold. -/
def HasThreshold (policy : ScoringPolicy F) (rule : Rule) : Prop :=
  ((policy.rules.get? rule.text).bind RuleSpec.threshold).isSome = true

/-- The policy has what the scan asks for: the entropy values are numbers that `float` takes, both entropy
    rules have a threshold, and there is a rule for every other piece of evidence. -/
structure Covers (policy : ScoringPolicy F) (scan : StaticScanResult F) : Prop where
  whole : (scan.entropy "whole_file_entropy").isOk = true
  ratio : (scan.entropy "high_entropy_block_ratio").isOk = true
  wholeRule : policy.HasThreshold .highWholeFileEntropy
  ratioRule : policy.HasThreshold .highEntropyBlockRatio
  rules : ∀ rule ∈ fired (staticFindings scan) ++ fired (contextFindings scan), policy.Has rule

instance (policy : ScoringPolicy F) (rule : Rule) : Decidable (policy.Has rule) :=
  inferInstanceAs (Decidable (_ = true))

instance (policy : ScoringPolicy F) (rule : Rule) : Decidable (policy.HasThreshold rule) :=
  inferInstanceAs (Decidable (_ = true))

instance (policy : ScoringPolicy F) (scan : StaticScanResult F) : Decidable (policy.Covers scan) :=
  decidable_of_iff (_ ∧ _ ∧ _ ∧ _ ∧ _)
    ⟨fun ⟨whole, ratio, wholeRule, ratioRule, rules⟩ => ⟨whole, ratio, wholeRule, ratioRule, rules⟩,
      fun h => ⟨h.whole, h.ratio, h.wholeRule, h.ratioRule, h.rules⟩⟩

variable {policy : ScoringPolicy F} {scan : StaticScanResult F}

theorem HasThreshold.has {rule : Rule} (h : policy.HasThreshold rule) : policy.Has rule := by
  unfold HasThreshold at h
  unfold Has
  cases hget : policy.rules.get? rule.text with
  | none =>
      rw [hget] at h
      cases h
  | some spec => rfl

theorem threshold_isOk {rule : Rule} :
    (∃ t, policy.threshold rule = .ok t) ↔ policy.HasThreshold rule := by
  unfold threshold HasThreshold
  cases (policy.rules.get? rule.text).bind RuleSpec.threshold with
  | none => exact iff_of_false (fun ⟨_, h⟩ => nomatch h) nofun
  | some t => exact iff_of_true ⟨t, rfl⟩ rfl

theorem indicator_isOk {rule : Rule} {evidence : Json F} :
    (∃ i, policy.indicator rule evidence = .ok i) ↔ policy.Has rule := by
  unfold indicator Has
  cases policy.rules.get? rule.text with
  | none => exact iff_of_false (fun ⟨_, h⟩ => nomatch h) nofun
  | some spec => exact iff_of_true ⟨_, rfl⟩ rfl

theorem collect_isOk {findings : List (Finding F)} :
    (∃ is, policy.collect findings = .ok is) ↔ ∀ rule ∈ fired findings, policy.Has rule := by
  rw [collect, mapM_isOk, fired, List.forall_mem_map]
  exact forall₂_congr fun f _ => indicator_isOk

theorem collectEntropy_isOk :
    (∃ is, policy.collectEntropy scan = .ok is) ↔
      (scan.entropy "whole_file_entropy").isOk = true ∧
        (scan.entropy "high_entropy_block_ratio").isOk = true ∧
          policy.HasThreshold .highWholeFileEntropy ∧ policy.HasThreshold .highEntropyBlockRatio := by
  constructor
  · rintro ⟨is, h⟩
    obtain ⟨whole, hwhole, h⟩ := bind_ok.1 h
    obtain ⟨ratio, hratio, h⟩ := bind_ok.1 h
    obtain ⟨wholeMin, hwholeMin, h⟩ := bind_ok.1 h
    obtain ⟨first, -, h⟩ := bind_ok.1 h
    obtain ⟨ratioMin, hratioMin, -⟩ := bind_ok.1 h
    exact ⟨isOk_iff.2 ⟨whole, mapError_ok.1 hwhole⟩, isOk_iff.2 ⟨ratio, mapError_ok.1 hratio⟩,
      threshold_isOk.1 ⟨_, hwholeMin⟩, threshold_isOk.1 ⟨_, hratioMin⟩⟩
  · rintro ⟨hwhole, hratio, hwholeRule, hratioRule⟩
    obtain ⟨whole, hwhole⟩ := isOk_iff.1 hwhole
    obtain ⟨ratio, hratio⟩ := isOk_iff.1 hratio
    have hone : ∀ {rule : Rule} (fires : Bool) (evidence : Json F), policy.Has rule →
        ∃ is, policy.collect [⟨fires, rule, evidence⟩] = .ok is := by
      intro rule fires evidence hrule
      refine collect_isOk.2 fun r hr => ?_
      obtain rfl := List.mem_singleton.1 ((fired_sublist _).subset hr)
      exact hrule
    obtain ⟨wholeMin, hwholeMin⟩ := threshold_isOk.2 hwholeRule
    obtain ⟨ratioMin, hratioMin⟩ := threshold_isOk.2 hratioRule
    obtain ⟨first, hfirst⟩ := hone (OrderedFloat.le wholeMin whole) (.float whole) hwholeRule.has
    obtain ⟨second, hsecond⟩ := hone (OrderedFloat.le ratioMin ratio) (.float ratio) hratioRule.has
    exact ⟨first ++ second, bind_ok.2 ⟨whole, mapError_ok.2 hwhole, bind_ok.2 ⟨ratio, mapError_ok.2 hratio,
      bind_ok.2 ⟨wholeMin, hwholeMin, bind_ok.2 ⟨first, hfirst, bind_ok.2 ⟨ratioMin, hratioMin,
        bind_ok.2 ⟨second, hsecond, rfl⟩⟩⟩⟩⟩⟩⟩

/-! ## Scoring returns -/

/-- An indicator of an accepted policy is filed. -/
theorem Indicates.filed (hpolicy : policy.Accepted) {rule : Rule} {i : ScoreIndicator F}
    (h : policy.Indicates rule i) : ∃ ci, i.filed = .ok ci := by
  obtain ⟨spec, hget, -, hcategory, -⟩ := h
  obtain ⟨-, ⟨c, hc⟩, -⟩ := hpolicy.rule rule.text spec hget
  rw [ScoreIndicator.filed, hcategory, hc]
  exact ⟨_, rfl⟩

theorem Accepted.categoryScores_isOk (h : policy.Accepted) (raw : Category → Int) :
    ∃ capped, policy.categoryScores raw = .ok capped := by
  have hscore : ∀ c, policy.categoryScore raw c = .ok (min (raw c) (policy.cap c)) :=
    fun c => bind_ok.2 ⟨policy.cap c, h.categoryCap c, rfl⟩
  exact ⟨_, bind_ok.2 ⟨_, hscore .entropy, bind_ok.2 ⟨_, hscore .static,
    bind_ok.2 ⟨_, hscore .context, rfl⟩⟩⟩⟩

theorem Accepted.decision_isOk (h : policy.Accepted) (score static : Int) :
    ∃ d, policy.decision score static = .ok d := by
  unfold decision
  simp only [h.denyMin, h.gate, h.warnMin, h.monitorMin, bind, Except.bind, pure, Except.pure]
  split_ifs <;> exact ⟨_, rfl⟩

theorem Accepted.scoreIndicators_isOk (h : policy.Accepted) {rules : List Rule}
    {indicators : List (ScoreIndicator F)} (hindicates : List.Forall₂ policy.Indicates rules indicators)
    (status : Analyzer.ScanStatus) : ∃ result, policy.scoreIndicators status indicators = .ok result := by
  have hfiled : ∀ i ∈ indicators, ∃ ci, ScoreIndicator.filed i = .ok ci := by
    clear status
    induction hindicates with
    | nil => exact fun _ hi => nomatch hi
    | cons hrule _ ih => exact List.forall_mem_cons.2 ⟨hrule.filed h, ih⟩
  obtain ⟨filed, hfiled⟩ := mapM_isOk.2 hfiled
  have hsorted : sortIndicators indicators = .ok (filed.insertionSort fun a b => filedLe a b) :=
    bind_ok.2 ⟨filed, hfiled, rfl⟩
  obtain ⟨capped, hcapped⟩ := h.categoryScores_isOk
    (rawScores (filed.insertionSort fun a b => filedLe a b))
  obtain ⟨d, hd⟩ := h.decision_isOk (min policy.scoreMaximum (max policy.scoreMinimum
    (capped .entropy + capped .static + capped .context))) (capped .static)
  exact ⟨_, bind_ok.2 ⟨_, hsorted, bind_ok.2 ⟨capped, hcapped, bind_ok.2 ⟨d, hd, rfl⟩⟩⟩⟩

end ScoringPolicy

/-- **A loaded policy scores a scan** exactly if the scan has failed or the policy covers it. -/
theorem score_returns_iff {describe : ScoringError → PyStr} {data : Mapping F} {policy : ScoringPolicy F}
    (hload : fromMapping describe data = .ok policy) (scan : StaticScanResult F) :
    (∃ result, policy.score scan = .ok result) ↔ scan.status = .error ∨ policy.Covers scan := by
  have hpolicy := ScoringPolicy.accepted (fromMapping_ok hload)
  by_cases hstatus : scan.status = .error
  · rw [ScoringPolicy.score, if_pos hstatus]
    exact iff_of_true ⟨_, rfl⟩ (.inl hstatus)
  · rw [ScoringPolicy.score, if_neg hstatus, or_iff_right hstatus]
    constructor
    · rintro ⟨result, h⟩
      obtain ⟨entropy, hentropy, h⟩ := bind_ok.1 h
      obtain ⟨static, hstatic, h⟩ := bind_ok.1 h
      obtain ⟨context, hcontext, -⟩ := bind_ok.1 h
      obtain ⟨hwhole, hratio, hwholeRule, hratioRule⟩ :=
        ScoringPolicy.collectEntropy_isOk.1 ⟨_, hentropy⟩
      exact ⟨hwhole, hratio, hwholeRule, hratioRule, List.forall_mem_append.2
        ⟨ScoringPolicy.collect_isOk.1 ⟨_, hstatic⟩, ScoringPolicy.collect_isOk.1 ⟨_, hcontext⟩⟩⟩
    · intro h
      obtain ⟨hstaticRules, hcontextRules⟩ := List.forall_mem_append.1 h.rules
      obtain ⟨entropy, hentropy⟩ := ScoringPolicy.collectEntropy_isOk.2
        ⟨h.whole, h.ratio, h.wholeRule, h.ratioRule⟩
      obtain ⟨static, hstatic⟩ := ScoringPolicy.collect_isOk.2 hstaticRules
      obtain ⟨context, hcontext⟩ := ScoringPolicy.collect_isOk.2 hcontextRules
      have hindicates := List.rel_append (List.rel_append (ScoringPolicy.collectEntropy_ok hentropy)
        (ScoringPolicy.collect_ok hstatic)) (ScoringPolicy.collect_ok hcontext)
      obtain ⟨result, hresult⟩ := hpolicy.scoreIndicators_isOk hindicates scan.status
      exact ⟨result, bind_ok.2 ⟨entropy, hentropy, bind_ok.2 ⟨static, hstatic,
        bind_ok.2 ⟨context, hcontext, hresult⟩⟩⟩⟩

/-! ## A policy with two rules -/

/-- The configuration of a rule. -/
def ruleData (category : String) (weight : Int) : Json SampleFloat :=
  .obj [(py "category", .str (py category)), (py "weight", .int weight),
    (py "description", .str (py "a rule")), (py "threshold", .int 0)]

/-- A configuration that has the rules about entropy and no others. -/
def entropyData : Mapping SampleFloat :=
  [(py "schema_version", .str (py "1.0")), (py "policy_name", .str (py "local")),
    (py "policy_status", .str (py "PROVISIONAL_NOT_CALIBRATED")), (py "score_minimum", .int 0),
    (py "score_maximum", .int 100),
    (py "category_caps", .obj [(py "entropy", .int 60), (py "static", .int 60), (py "context", .int 40)]),
    (py "decision_thresholds", .obj [(py "allow_monitor_min", .int 20), (py "warn_min", .int 40),
      (py "deny_min", .int 50), (py "deny_min_static_score", .int 1)]),
    (py "rules", .obj [(Rule.highWholeFileEntropy.text, ruleData "entropy" 30),
      (Rule.highEntropyBlockRatio.text, ruleData "entropy" 30)])]

/-- A scan of a file with the set-user-id bit. -/
def suidScan : StaticScanResult SampleFloat :=
  { plainScan with permissionAnomalies := [Rule.suidBitSet.text] }

/-- The policy is accepted, and its first file with the set-user-id bit raises. -/
theorem suid_not_scored : ∃ policy, fromMapping (fun _ => []) entropyData = .ok policy ∧
    ¬ ∃ result, policy.score suidScan = .ok result := by
  have hraises : (fromMapping (fun _ => []) entropyData).map
      (fun policy => (policy.score suidScan).isOk) = .ok false := by decide +kernel
  obtain ⟨policy, hload, hscore⟩ := map_eq_ok hraises
  refine ⟨policy, hload, fun hok => ?_⟩
  cases (isOk_iff.2 hok).symm.trans hscore

theorem plain_scored : ∃ policy, fromMapping (fun _ => []) entropyData = .ok policy ∧
    ∃ result, policy.score plainScan = .ok result := by
  have hcovers : (fromMapping (fun _ => []) entropyData).map
      (fun policy => decide (policy.Covers plainScan)) = .ok true := by decide +kernel
  obtain ⟨policy, hload, hplain⟩ := map_eq_ok hcovers
  exact ⟨policy, hload, (score_returns_iff hload plainScan).2 (.inr (of_decide_eq_true hplain))⟩

end Elyra.Scoring
