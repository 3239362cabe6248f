import Elyra.Analyzer.PreExecution
import Elyra.Python.Floats
import Elyra.Scoring.Weights

set_option autoImplicit false

/-! # The scoring engine

A policy, its validation, and `score`: which rules a scan triggers, what their weights sum up to in each
category, and the decision. What the engine reads of a scan is the record below, over the fields the
analyzer reads. -/

namespace Elyra.Scoring

open Elyra.Python

variable {F : Type} [OrderedFloat F]

/-! ## Policies -/

inductive Category where
  | entropy
  | static
  | context
  deriving DecidableEq, Repr

instance : Fintype Category :=
  ⟨{.entropy, .static, .context}, fun c => by cases c <;> decide⟩

def Category.text : Category → PyStr
  | .entropy => py "entropy"
  | .static => py "static"
  | .context => py "context"

/-- `_ALLOWED_CATEGORIES`, in the order of `_CATEGORY_ORDER`. -/
def allowedCategories : List Category := [.entropy, .static, .context]

/-- The category of that name. -/
def Category.ofText? (text : PyStr) : Option Category :=
  allowedCategories.find? fun c => c.text = text

/-- `_CATEGORY_ORDER`. -/
def Category.order (c : Category) : Nat := allowedCategories.idxOf c

/-- The rules that `score` evaluates. -/
inductive Rule where
  | highWholeFileEntropy
  | highEntropyBlockRatio
  | mimeExtensionInconsistent
  | malformedElf
  | writableExecutableSection
  | writableExecutableSegment
  | elfEntryPointZero
  | elfNoSectionHeaders
  | suidBitSet
  | sgidBitSet
  | worldWritableAndExecutable
  | worldWritable
  | temporaryDirectory
  | downloadDirectory
  | removableOrMountedMedia
  | hiddenPathComponent
  deriving DecidableEq, Repr

def Rule.text : Rule → PyStr
  | .highWholeFileEntropy => py "HIGH_WHOLE_FILE_ENTROPY"
  | .highEntropyBlockRatio => py "HIGH_ENTROPY_BLOCK_RATIO"
  | .mimeExtensionInconsistent => py "MIME_EXTENSION_INCONSISTENT"
  | .malformedElf => py "MALFORMED_ELF"
  | .writableExecutableSection => py "WRITABLE_EXECUTABLE_SECTION"
  | .writableExecutableSegment => py "WRITABLE_EXECUTABLE_SEGMENT"
  | .elfEntryPointZero => py "ELF_ENTRY_POINT_ZERO"
  | .elfNoSectionHeaders => py "ELF_NO_SECTION_HEADERS"
  | .suidBitSet => py "SUID_BIT_SET"
  | .sgidBitSet => py "SGID_BIT_SET"
  | .worldWritableAndExecutable => py "WORLD_WRITABLE_AND_EXECUTABLE"
  | .worldWritable => py "WORLD_WRITABLE"
  | .temporaryDirectory => py "TEMPORARY_DIRECTORY"
  | .downloadDirectory => py "DOWNLOAD_DIRECTORY"
  | .removableOrMountedMedia => py "REMOVABLE_OR_MOUNTED_MEDIA"
  | .hiddenPathComponent => py "HIDDEN_PATH_COMPONENT"

structure RuleSpec (F : Type) where
  rule : PyStr
  category : PyStr
  weight : Int
  description : PyStr
  threshold : Option F

structure ScoringPolicy (F : Type) where
  schemaVersion : PyStr
  policyName : PyStr
  policyStatus : PyStr
  scoreMinimum : Int
  scoreMaximum : Int
  categoryCaps : Dict PyStr Int
  decisionThresholds : Dict PyStr Int
  rules : Dict PyStr (RuleSpec F)

/-- What validation and scoring raise. -/
inductive ScoringError where
  | invalidScoringConfiguration (text : PyStr)
  | keyError (key : PyStr)
  /-- An exception of `float`. -/
  | conversion (exc : PyExc)
  deriving DecidableEq

/-- `d[key]`. -/
def getItem {α : Type} (d : Dict PyStr α) (key : PyStr) : Except ScoringError α :=
  match d.get? key with
  | some v => .ok v
  | none => .error (.keyError key)

/-- `if not p: raise InvalidScoringConfiguration(text)`. -/
def require (p : Prop) [Decidable p] (text : PyStr) : Except ScoringError Unit :=
  if p then .ok () else .error (.invalidScoringConfiguration text)

/-- `set(d) == names`. -/
abbrev HasKeys (d : Dict PyStr Int) (names : List PyStr) : Prop :=
  (∀ k ∈ keys d.items, k ∈ names) ∧ ∀ k ∈ names, k ∈ keys d.items

/-- The checks on one rule. -/
def checkRule (maximum : Int) (ruleId : PyStr) (rule : RuleSpec F) : Except ScoringError Unit := do
  require (rule.rule = ruleId) (py "rule key and embedded rule name differ: " ++ ruleId)
  require (rule.category ∈ allowedCategories.map Category.text)
    (py "unsupported rule category for " ++ ruleId ++ py ": " ++ rule.category)
  require (¬ (rule.weight < 0 ∨ maximum < rule.weight))
    (py "rule weight outside 0..100 for " ++ ruleId)
  require (strip rule.description ≠ []) (py "rule description is empty for " ++ ruleId)

namespace ScoringPolicy

variable (policy : ScoringPolicy F)

/-- `decision_thresholds[name]`. -/
def decisionThreshold (name : String) : Except ScoringError Int :=
  getItem policy.decisionThresholds (py name)

/-- `validate`. -/
def validate : Except ScoringError Unit := do
  require (policy.policyStatus = py "PROVISIONAL_NOT_CALIBRATED")
    (py "Stage 4 policy must be labelled PROVISIONAL_NOT_CALIBRATED")
  require (¬ (policy.scoreMinimum ≠ 0 ∨ policy.scoreMaximum ≠ 100)) (py "score range must be 0..100")
  require (HasKeys policy.categoryCaps (allowedCategories.map Category.text))
    (py "category caps must define entropy, static and context")
  require (¬ ∃ cap ∈ policy.categoryCaps.values, cap < 0 ∨ policy.scoreMaximum < cap)
    (py "category caps must be within 0..100")
  require (HasKeys policy.decisionThresholds
      [py "allow_monitor_min", py "warn_min", py "deny_min", py "deny_min_static_score"])
    (py ("decision thresholds must define allow_monitor_min, warn_min, " ++
      "deny_min and deny_min_static_score"))
  let allowMonitor ← policy.decisionThreshold "allow_monitor_min"
  let warn ← policy.decisionThreshold "warn_min"
  let deny ← policy.decisionThreshold "deny_min"
  let denyStatic ← policy.decisionThreshold "deny_min_static_score"
  require (0 < allowMonitor ∧ allowMonitor < warn ∧ warn < deny ∧ deny ≤ policy.scoreMaximum)
    (py "decision thresholds must increase within the 0..100 score range")
  let staticCap ← getItem policy.categoryCaps (py "static")
  require (0 ≤ denyStatic ∧ denyStatic ≤ staticCap)
    (py "deny_min_static_score must fit within the static category cap")
  policy.rules.items.forM fun item => checkRule policy.scoreMaximum item.1 item.2

end ScoringPolicy

/-! ## Scans -/

/-- What the engine reads of a scan. -/
structure StaticScanResult (F : Type) extends Analyzer.StaticScanResult F where
  filepath : PyStr
  extension : PyStr
  mimeExtensionConsistency : PyStr
  expectedMimeTypes : List PyStr
  elfAnomalies : List PyStr
  permissionDetails : Mapping F
  permissionAnomalies : List PyStr
  pathContext : Mapping F
  pathIndicators : List PyStr
  entropySummary : Mapping F
  errors : List (Mapping F)

namespace StaticScanResult

variable (scan : StaticScanResult F)

/-- `float(scan.entropy_summary.get(key, 0.0))`. -/
def entropy (key : String) : Except PyExc F :=
  match lookup (py key) scan.entropySummary with
  | some value => pyFloat value
  | none => .ok (PyFloat.ofToken (py "0.0"))

/-- `[str(error.get("code", default)) for error in scan.errors]`. -/
def errorCodes (default : PyStr) : List PyStr :=
  scan.errors.map fun error => pyStr ((lookup (py "code") error).getD (.str default))

/-- `scan.permission_details.get("mode_octal")`. -/
def modeOctal : Json F := (lookup (py "mode_octal") scan.permissionDetails).getD .null

end StaticScanResult

/-- `_matching_prefix`. -/
def matchingPrefix (values : List PyStr) (pre : PyStr) : List PyStr :=
  (values.filter fun value => pre.isPrefixOf value).insertionSort fun a b => keyLe a b

/-! ## Indicators -/

structure ScoreIndicator (F : Type) where
  rule : PyStr
  category : PyStr
  weight : Int
  evidence : Json F
  description : PyStr

/-- `to_dict`. -/
def ScoreIndicator.toDict (i : ScoreIndicator F) : Mapping F :=
  [(py "rule", .str i.rule), (py "category", .str i.category), (py "weight", .int i.weight),
    (py "evidence", i.evidence), (py "description", .str i.description)]

/-- A check of a collector: whether it triggers its rule, and with which evidence. -/
structure Finding (F : Type) where
  fires : Bool
  rule : Rule
  evidence : Json F

namespace ScoringPolicy

variable (policy : ScoringPolicy F)

/-- `_indicator`. -/
def indicator (rule : Rule) (evidence : Json F) : Except ScoringError (ScoreIndicator F) :=
  match policy.rules.get? rule.text with
  | some spec => .ok ⟨spec.rule, spec.category, spec.weight, evidence, spec.description⟩
  | none =>
      .error (.invalidScoringConfiguration (py "required scoring rule is missing: " ++ rule.text))

/-- `_threshold`. -/
def threshold (rule : Rule) : Except ScoringError F :=
  match (policy.rules.get? rule.text).bind RuleSpec.threshold with
  | some t => .ok t
  | none =>
      .error (.invalidScoringConfiguration (py "rule requires a numeric threshold: " ++ rule.text))

/-- The indicators of the checks that fire. -/
def collect (findings : List (Finding F)) : Except ScoringError (List (ScoreIndicator F)) :=
  (findings.filter Finding.fires).mapM fun f => policy.indicator f.rule f.evidence

/-- `_collect_entropy`. -/
def collectEntropy (scan : StaticScanResult F) :
    Except ScoringError (List (ScoreIndicator F)) := do
  let whole ← (scan.entropy "whole_file_entropy").mapError .conversion
  let ratio ← (scan.entropy "high_entropy_block_ratio").mapError .conversion
  let wholeMin ← policy.threshold .highWholeFileEntropy
  let first ← policy.collect
    [⟨OrderedFloat.le wholeMin whole, .highWholeFileEntropy, .float whole⟩]
  let ratioMin ← policy.threshold .highEntropyBlockRatio
  let second ← policy.collect
    [⟨OrderedFloat.le ratioMin ratio, .highEntropyBlockRatio, .float ratio⟩]
  return first ++ second

end ScoringPolicy

/-- `values` contains the name of the rule. -/
def exact (values : List PyStr) (rule : Rule) (evidence : Json F) : Finding F :=
  ⟨rule.text ∈ values, rule, evidence⟩

/-- Something in `values` starts with `pre`. -/
def anyPrefix (values : List PyStr) (pre : String) (rule : Rule) : Finding F :=
  let matching := matchingPrefix values (py pre)
  ⟨!matching.isEmpty, rule, .arr (matching.map .str)⟩

/-- The checks of `_collect_static`. -/
def staticFindings (scan : StaticScanResult F) : List (Finding F) :=
  let permission (rule : Rule) (evidence : Json F) := exact scan.permissionAnomalies rule evidence
  let worldBoth := permission .worldWritableAndExecutable scan.modeOctal
  let world := permission .worldWritable scan.modeOctal
  [⟨scan.mimeExtensionConsistency = py "INCONSISTENT", .mimeExtensionInconsistent,
      .obj [(py "detected_mime", .str scan.mimeType), (py "extension", .str scan.extension),
        (py "expected_mime_types", .arr (scan.expectedMimeTypes.map .str))]⟩,
    exact ((scan.errorCodes []).insertionSort fun a b => keyLe a b) .malformedElf (.str (py "MALFORMED_ELF")),
    anyPrefix scan.elfAnomalies "WRITABLE_EXECUTABLE_SECTION:" .writableExecutableSection,
    anyPrefix scan.elfAnomalies "WRITABLE_EXECUTABLE_SEGMENT:" .writableExecutableSegment,
    exact scan.elfAnomalies .elfEntryPointZero (.str Rule.elfEntryPointZero.text),
    exact scan.elfAnomalies .elfNoSectionHeaders (.str Rule.elfNoSectionHeaders.text),
    permission .suidBitSet (.str Rule.suidBitSet.text),
    permission .sgidBitSet (.str Rule.sgidBitSet.text),
    worldBoth,
    -- `elif`
    { world with fires := world.fires && !worldBoth.fires }]

/-- The checks of `_collect_context`. -/
def contextFindings (scan : StaticScanResult F) : List (Finding F) :=
  [.temporaryDirectory, .downloadDirectory, .removableOrMountedMedia, .hiddenPathComponent].map
    fun rule => exact scan.pathIndicators rule
      ((lookup (py "absolute_path") scan.pathContext).getD (.str scan.filepath))

/-! ## Scoring -/

inductive Decision where
  | allow
  | allowMonitor
  | warn
  | deny
  deriving DecidableEq, Repr

def Decision.text : Decision → PyStr
  | .allow => py "ALLOW"
  | .allowMonitor => py "ALLOW_MONITOR"
  | .warn => py "WARN"
  | .deny => py "DENY"

structure ScoringResult (F : Type) where
  score : Int
  decision : Decision
  indicators : List (ScoreIndicator F)
  categoryScores : Category → Int
  rawCategoryScores : Category → Int
  categoryCaps : Dict PyStr Int
  policyName : PyStr
  policyStatus : PyStr
  schemaVersion : PyStr
  decisionThresholds : Dict PyStr Int
  scoringStatus : PyStr
  notes : List PyStr

/-- A dictionary with a value for each category. -/
def scoresDict (scores : Category → Int) : Mapping F :=
  allowedCategories.map fun c => (c.text, .int (scores c))

/-- The result as the analyzer reads it. -/
def ScoringResult.report (r : ScoringResult F) : Analyzer.ScoringResult F where
  score := r.score
  decision := r.decision.text
  indicators := r.indicators.map ScoreIndicator.toDict
  categoryScores := scoresDict r.categoryScores
  rawCategoryScores := scoresDict r.rawCategoryScores
  labels :=
    { schemaVersion := r.schemaVersion
      policyName := r.policyName
      policyStatus := r.policyStatus
      categoryCaps := r.categoryCaps.items.map fun kv => (kv.1, .int kv.2)
      decisionThresholds := r.decisionThresholds.items.map fun kv => (kv.1, .int kv.2) }
  scoringStatus := r.scoringStatus
  notes := r.notes

/-- The category an indicator counts for; `KeyError` for a name that is none. -/
def ScoreIndicator.filed (i : ScoreIndicator F) :
    Except ScoringError (Category × ScoreIndicator F) :=
  match Category.ofText? i.category with
  | some c => .ok (c, i)
  | none => .error (.keyError i.category)

/-- The order of the sort keys `(_CATEGORY_ORDER[item.category], item.rule)`. -/
def filedLe (a b : Category × ScoreIndicator F) : Bool :=
  a.1.order < b.1.order || (a.1.order == b.1.order && keyLe a.2.rule b.2.rule)

/-- `indicators.sort`, with the categories of the keys. -/
def sortIndicators (indicators : List (ScoreIndicator F)) :
    Except ScoringError (List (Category × ScoreIndicator F)) := do
  let filed ← indicators.mapM ScoreIndicator.filed
  return filed.insertionSort fun a b => filedLe a b

/-- `raw_scores` after the loop. -/
def rawScores (indicators : List (Category × ScoreIndicator F)) : Category → Int :=
  indicators.foldl (fun raw i => Function.update raw i.1 (raw i.1 + i.2.weight)) fun _ => 0

namespace ScoringPolicy

variable (policy : ScoringPolicy F)

/-- `min(raw_scores[category], category_caps[category])`. -/
def categoryScore (raw : Category → Int) (c : Category) : Except ScoringError Int := do
  let cap ← getItem policy.categoryCaps c.text
  return min (raw c) cap

/-- `category_scores`. -/
def categoryScores (raw : Category → Int) : Except ScoringError (Category → Int) := do
  let entropy ← policy.categoryScore raw .entropy
  let static ← policy.categoryScore raw .static
  let context ← policy.categoryScore raw .context
  return fun
    | .entropy => entropy
    | .static => static
    | .context => context

/-- `_decision`. -/
def decision (score static : Int) : Except ScoringError (Decision × List PyStr) := do
  let denyMin ← policy.decisionThreshold "deny_min"
  if denyMin ≤ score then
    let gate ← policy.decisionThreshold "deny_min_static_score"
    if gate ≤ static then return (.deny, [])
    return (.warn, [py ("DENY_GATE_NOT_MET: static evidence is below the provisional " ++
      "minimum required for denial")])
  let warnMin ← policy.decisionThreshold "warn_min"
  if warnMin ≤ score then return (.warn, [])
  let monitorMin ← policy.decisionThreshold "allow_monitor_min"
  if monitorMin ≤ score then return (.allowMonitor, [])
  return (.allow, [])

/-- A result with the labels of the policy. -/
def result (score : Int) (decision : Decision) (indicators : List (ScoreIndicator F))
    (capped raw : Category → Int) (scoringStatus : PyStr) (notes : List PyStr) : ScoringResult F where
  score := score
  decision := decision
  indicators := indicators
  categoryScores := capped
  rawCategoryScores := raw
  categoryCaps := policy.categoryCaps
  policyName := policy.policyName
  policyStatus := policy.policyStatus
  schemaVersion := policy.schemaVersion
  decisionThresholds := policy.decisionThresholds
  scoringStatus := scoringStatus
  notes := notes

/-- `degraded_result`. -/
def degradedResult (rule : PyStr) (evidence : Json F) : ScoringResult F :=
  policy.result 0 .allowMonitor
    [⟨rule, py "system", 0, evidence,
      py ("Analysis could not be completed; the provisional fail-open " ++
        "policy allows execution only with monitoring and critical logging.")⟩]
    (fun _ => 0) (fun _ => 0) (py "DEGRADED") [py "FAIL_OPEN_REQUIRES_CRITICAL_AUDIT_RECORD"]

omit [OrderedFloat F] in
/-- It is the degraded result of the analyzer. -/
theorem degradedResult_report (rule : String) (evidence : Json F) :
    (policy.degradedResult (py rule) evidence).report =
      Analyzer.degradedResult (policy.degradedResult (py rule) evidence).report.labels rule
        evidence := by
  simp only [ScoringResult.report, degradedResult, result, Analyzer.degradedResult,
    ScoreIndicator.toDict, scoresDict, Analyzer.emptyScores, allowedCategories, List.map_cons,
    List.map_nil, Category.text, Decision.text]

/-- The notes `score` adds to those of the decision. -/
def scoreNotes (status : Analyzer.ScanStatus) (capped : Category → Int) : List PyStr :=
  (if status = .partialScan then
    [py "PARTIAL_STATIC_ANALYSIS: the decision uses the evidence that was available"] else []) ++
  (if 0 < capped .entropy ∧ ¬ (capped .static ≠ 0 ∨ capped .context ≠ 0) then
    [py ("ENTROPY_ONLY_EVIDENCE: entropy is not proof of malware and cannot " ++
      "satisfy the denial gate by itself")] else [])

/-- `score` of the indicators of a scan. -/
def scoreIndicators (status : Analyzer.ScanStatus) (indicators : List (ScoreIndicator F)) :
    Except ScoringError (ScoringResult F) := do
  let filed ← sortIndicators indicators
  let raw := rawScores filed
  let capped ← policy.categoryScores raw
  let score := min policy.scoreMaximum
    (max policy.scoreMinimum (capped .entropy + capped .static + capped .context))
  let (decision, notes) ← policy.decision score (capped .static)
  return policy.result score decision (filed.map Prod.snd) capped raw (py "OK")
    (notes ++ scoreNotes status capped)

/-- `score`. -/
def score (scan : StaticScanResult F) : Except ScoringError (ScoringResult F) :=
  if scan.status = .error then
    .ok (policy.degradedResult (py "STATIC_ANALYSIS_INCOMPLETE")
      (.arr ((scan.errorCodes (py "UNKNOWN")).map .str)))
  else do
    let entropy ← policy.collectEntropy scan
    let static ← policy.collect (staticFindings scan)
    let context ← policy.collect (contextFindings scan)
    policy.scoreIndicators scan.status (entropy ++ static ++ context)

end ScoringPolicy

end Elyra.Scoring
