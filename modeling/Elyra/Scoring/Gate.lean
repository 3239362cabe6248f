import Elyra.Scoring.Outcome

set_option autoImplicit false
set_option linter.unusedSectionVars false

/-! # The denial gate

A scan is denied if its score and the score of the static category reach their minimums. Entropy opens
this gate exactly if the policy files enough of its weight as static evidence, or asks for none, and
gives it the weight that denial takes. -/

namespace Elyra.Scoring

open Elyra.Python

variable {F : Type} [OrderedFloat F]

namespace ScoringPolicy

variable {policy : ScoringPolicy F}

theorem verdict_deny_iff {score static : Int} :
    policy.verdict score static = .deny ↔
      policy.minimum "deny_min" ≤ score ∧ policy.minimum "deny_min_static_score" ≤ static := by
  rw [verdict]
  by_cases hscore : policy.minimum "deny_min" ≤ score
  · by_cases hstatic : policy.minimum "deny_min_static_score" ≤ static <;> simp [hscore, hstatic]
  · by_cases hwarn : policy.minimum "warn_min" ≤ score
    · simp [hscore, hwarn]
    · by_cases hmonitor : policy.minimum "allow_monitor_min" ≤ score <;>
        simp [hscore, hwarn, hmonitor]

/-- The clamp to the range of scores does not matter for the minimum of denial. -/
theorem Accepted.denyMin_le_iff (h : policy.Accepted) {total : Int} :
    policy.minimum "deny_min" ≤ min 100 (max 0 total) ↔ policy.minimum "deny_min" ≤ total := by
  have hincreasing := h.increasing
  omega

end ScoringPolicy

/-- The only triggered indicators are those of the two entropy rules. -/
def EntropyOnly (result : ScoringResult F) : Prop :=
  ∀ i ∈ result.indicators, i.rule = Rule.highWholeFileEntropy.text ∨
    i.rule = Rule.highEntropyBlockRatio.text

/-- The weights of the entropy rules that the scan triggers stay below the minimum of static evidence
    in the static category, or below the minimum of denial in all. -/
def GateHolds (policy : ScoringPolicy F) (scan : StaticScanResult F) : Prop :=
  policy.weighing.raw (policy.entropyRules scan).toFinset .static <
      policy.minimum "deny_min_static_score" ∨
    policy.weighing.total (policy.entropyRules scan).toFinset < policy.minimum "deny_min"

instance (policy : ScoringPolicy F) (scan : StaticScanResult F) : Decidable (GateHolds policy scan) :=
  inferInstanceAs (Decidable (_ ∨ _))

/-- A gate above zero holds if neither entropy rule is filed as static evidence. -/
theorem gateHolds_of_filed {policy : ScoringPolicy F}
    (hgate : 0 < policy.minimum "deny_min_static_score")
    (hwhole : policy.weighing.category .highWholeFileEntropy ≠ .static)
    (hratio : policy.weighing.category .highEntropyBlockRatio ≠ .static)
    (scan : StaticScanResult F) : GateHolds policy scan := by
  have hnone : ((policy.entropyRules scan).toFinset.filter fun r =>
      policy.weighing.category r = .static) = ∅ := by
    refine Finset.filter_eq_empty_iff.2 fun r hr hstatic => ?_
    have hr := (entropyRules_sublist policy scan).subset (List.mem_toFinset.1 hr)
    rcases List.mem_pair.1 hr with rfl | rfl
    · exact hwhole hstatic
    · exact hratio hstatic
  refine .inl ?_
  rw [Weighing.raw, hnone, Finset.sum_empty]
  exact hgate

theorem entropy_of_text {r : Rule} (h : r.text = Rule.highWholeFileEntropy.text ∨
    r.text = Rule.highEntropyBlockRatio.text) :
    r = .highWholeFileEntropy ∨ r = .highEntropyBlockRatio := by
  revert h
  cases r <;> decide +kernel

/-- What a scan of entropy evidence triggers. -/
theorem Scored.entropy_triggered {policy : ScoringPolicy F} {scan : StaticScanResult F}
    {result : ScoringResult F} (h : Scored policy scan result) (honly : EntropyOnly result) :
    policy.triggered scan = policy.entropyRules scan := by
  have hentropy : ∀ r ∈ policy.triggered scan, r = .highWholeFileEntropy ∨ r = .highEntropyBlockRatio := by
    intro r hr
    obtain ⟨i, hi, hrule⟩ := List.mem_map.1 (h.rules.mem_iff.2 (List.mem_map_of_mem hr))
    exact entropy_of_text (hrule ▸ honly i hi)
  have hstatic : fired (staticFindings scan) = [] := by
    refine List.eq_nil_iff_forall_not_mem.2 fun r hr => ?_
    have hmem := (fired_sublist _).subset hr
    rw [staticFindings_rules] at hmem
    have htriggered : r ∈ policy.triggered scan :=
      List.mem_append_left _ (List.mem_append_right _ hr)
    rcases hentropy r htriggered with rfl | rfl <;> exact absurd hmem (by decide)
  have hcontext : fired (contextFindings scan) = [] := by
    refine List.eq_nil_iff_forall_not_mem.2 fun r hr => ?_
    have hmem := (fired_sublist _).subset hr
    rw [contextFindings_rules] at hmem
    rcases hentropy r (List.mem_append_right _ hr) with rfl | rfl <;> exact absurd hmem (by decide)
  rw [ScoringPolicy.triggered, hstatic, hcontext, List.append_nil, List.append_nil]

/-- A failed scan triggers no rule about entropy. -/
theorem status_of_entropyOnly {policy : ScoringPolicy F} {scan : StaticScanResult F}
    {result : ScoringResult F} (h : policy.score scan = .ok result) (honly : EntropyOnly result) :
    scan.status ≠ .error := by
  intro hstatus
  rw [ScoringPolicy.score, if_pos hstatus] at h
  obtain rfl := Except.ok.inj h
  have hother : ¬ (py "STATIC_ANALYSIS_INCOMPLETE" = Rule.highWholeFileEntropy.text ∨
      py "STATIC_ANALYSIS_INCOMPLETE" = Rule.highEntropyBlockRatio.text) := by decide +kernel
  exact hother (honly _ (List.mem_singleton_self _))

/-- **Entropy alone** does not deny exactly if the weights of the entropy rules that are triggered stay
    below one of the two minimums. -/
theorem entropy_not_denied_iff {policy : ScoringPolicy F} (hvalid : policy.validate = .ok ())
    {scan : StaticScanResult F} {result : ScoringResult F} (hscore : policy.score scan = .ok result)
    (honly : EntropyOnly result) : result.decision ≠ .deny ↔ GateHolds policy scan := by
  have hpolicy := ScoringPolicy.accepted hvalid
  have hscored := score_ok hpolicy (status_of_entropyOnly hscore honly) hscore
  have htriggered := hscored.entropy_triggered honly
  rw [hscored.decision, hscored.score, htriggered, ne_eq, ScoringPolicy.verdict_deny_iff,
    hpolicy.denyMin_le_iff, Weighing.le_capped_iff hpolicy.gate_le, not_and_or, not_le, not_le,
    or_comm]
  rfl

/-! ## A policy whose gate is open -/

/-- A policy that asks for so much static evidence, with the given rules. -/
def samplePolicy (gate : Int) (rules : Dict PyStr (RuleSpec SampleFloat)) :
    ScoringPolicy SampleFloat where
  schemaVersion := py "1.0"
  policyName := py "local"
  policyStatus := py "PROVISIONAL_NOT_CALIBRATED"
  scoreMinimum := 0
  scoreMaximum := 100
  categoryCaps := ((Dict.empty.set (py "entropy") 60).set (py "static") 60).set (py "context") 40
  decisionThresholds := (((Dict.empty.set (py "allow_monitor_min") 20).set (py "warn_min") 40).set
    (py "deny_min") 50).set (py "deny_min_static_score") gate
  rules := rules

def withRule (rules : Dict PyStr (RuleSpec SampleFloat)) (r : Rule) (c : Category) (weight : Int) :
    Dict PyStr (RuleSpec SampleFloat) :=
  rules.set r.text ⟨r.text, c.text, weight, py "a rule", some .zero⟩

def entropyPolicy (gate : Int) : ScoringPolicy SampleFloat :=
  samplePolicy gate
    (withRule (withRule Dict.empty .highWholeFileEntropy .entropy 30) .highEntropyBlockRatio .entropy 30)

/-- A scan that has found nothing, at the thresholds of that policy. -/
def plainScan : StaticScanResult SampleFloat where
  status := .ok
  fileSize := .null
  mimeType := py "text/plain"
  isElf := false
  blockEntropies := []
  wholeFileEntropy := .null
  fileIdentity := []
  identitySource := py "UNVERIFIED_PATH"
  filepath := py "/home/a/x"
  extension := []
  mimeExtensionConsistency := py "CONSISTENT"
  expectedMimeTypes := []
  elfAnomalies := []
  permissionDetails := []
  permissionAnomalies := []
  pathContext := []
  pathIndicators := []
  entropySummary := []
  errors := []

/-- The score, the decision, and the rules behind them. -/
def outcome (policy : ScoringPolicy F) (scan : StaticScanResult F) :
    Except ScoringError (Int × Decision × List PyStr) :=
  (policy.score scan).map fun r => (r.score, r.decision, r.indicators.map ScoreIndicator.rule)

theorem outcome_ok {policy : ScoringPolicy F} {scan : StaticScanResult F} {score : Int}
    {d : Decision} {rules : List PyStr} (h : outcome policy scan = .ok (score, d, rules)) :
    ∃ result, policy.score scan = .ok result ∧ result.score = score ∧ result.decision = d ∧
      result.indicators.map ScoreIndicator.rule = rules := by
  rw [outcome] at h
  cases hscore : policy.score scan with
  | error e =>
      rw [hscore] at h
      cases h
  | ok result =>
      rw [hscore] at h
      have hfields := Except.ok.inj h
      exact ⟨result, rfl, congrArg Prod.fst hfields, congrArg (fun x => x.2.1) hfields,
        congrArg (fun x => x.2.2) hfields⟩

theorem entropyOnly_of_rules {result : ScoringResult F}
    (h : result.indicators.map ScoreIndicator.rule =
      [Rule.highEntropyBlockRatio.text, Rule.highWholeFileEntropy.text]) : EntropyOnly result := by
  intro i hi
  have hmem := List.mem_map_of_mem (f := ScoreIndicator.rule) hi
  rw [h, List.mem_pair] at hmem
  exact hmem.symm

/-- A policy that `validate` accepts, and a scan whose only evidence is its entropy, which is
    denied. -/
theorem entropy_alone_denied :
    ∃ result, (entropyPolicy 0).validate = .ok () ∧ (entropyPolicy 0).score plainScan = .ok result ∧
      EntropyOnly result ∧ result.decision = .deny := by
  have houtcome : outcome (entropyPolicy 0) plainScan =
      .ok (60, .deny, [Rule.highEntropyBlockRatio.text, Rule.highWholeFileEntropy.text]) := by
    decide +kernel
  obtain ⟨result, hscore, -, hdeny, hrules⟩ := outcome_ok houtcome
  exact ⟨result, by decide +kernel, hscore, entropyOnly_of_rules hrules, hdeny⟩

theorem entropy_alone_gated :
    ∃ result, (entropyPolicy 1).score plainScan = .ok result ∧ EntropyOnly result ∧
      result.decision ≠ .deny := by
  have houtcome : outcome (entropyPolicy 1) plainScan =
      .ok (60, .warn, [Rule.highEntropyBlockRatio.text, Rule.highWholeFileEntropy.text]) := by
    decide +kernel
  obtain ⟨result, hscore, -, -, hrules⟩ := outcome_ok houtcome
  have honly := entropyOnly_of_rules hrules
  have hvalid : (entropyPolicy 1).validate = .ok () := by decide +kernel
  exact ⟨result, hscore, honly,
    (entropy_not_denied_iff hvalid hscore honly).2 (by decide +kernel)⟩

end Elyra.Scoring
