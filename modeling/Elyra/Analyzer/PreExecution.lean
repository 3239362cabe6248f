import Elyra.Python.Exceptions

set_option autoImplicit false

/-! # The pre-execution analyzer

`analyze_open_fd_async` submits a scan to a thread pool and waits for it. What the scanner, the
scoring engine and the evidence analyst do is given (`Bench`); what is modelled is what the adapter
makes of it: which exceptions of the job it turns into a degraded result, which it lets through, and
which keys of the result say that the analysis is not complete. -/

namespace Elyra.Analyzer

open Elyra.Python

variable {T F : Type}

/-- `StaticScanResult.status`. -/
inductive ScanStatus where
  | ok
  | partialScan
  | error
  deriving DecidableEq, Repr

def ScanStatus.text : ScanStatus → PyStr
  | .ok => py "OK"
  | .partialScan => py "PARTIAL"
  | .error => py "ERROR"

/-- What `_score_scan` reads from a scan. -/
structure StaticScanResult (F : Type) where
  status : ScanStatus
  fileSize : Json F
  mimeType : PyStr
  isElf : Bool
  blockEntropies : List (Json F)
  wholeFileEntropy : Json F
  fileIdentity : Mapping F
  identitySource : PyStr

/-- The parts of the scoring policy that a result repeats. -/
structure PolicyLabels (F : Type) where
  schemaVersion : PyStr
  policyName : PyStr
  policyStatus : PyStr
  categoryCaps : Mapping F
  decisionThresholds : Mapping F

structure ScoringResult (F : Type) where
  score : Int
  decision : PyStr
  indicators : List (Mapping F)
  categoryScores : Mapping F
  rawCategoryScores : Mapping F
  labels : PolicyLabels F
  scoringStatus : PyStr
  notes : List PyStr

/-- `[item["rule"] for item in indicator_dicts]`. -/
def ruleNames (indicators : List (Mapping F)) : List (Json F) :=
  indicators.map fun item => (lookup (py "rule") item).getD .null

/-- `ScoringResult.to_dict`. -/
def ScoringResult.toDict [PyFloat F] (r : ScoringResult F) : Mapping F :=
  [(py "schema_version", .str r.labels.schemaVersion),
    (py "policy_name", .str r.labels.policyName),
    (py "policy_status", .str r.labels.policyStatus),
    (py "scoring_status", .str r.scoringStatus),
    (py "score", .int r.score),
    (py "risk_score", .str (intText r.score ++ py "/100")),
    (py "score_is_probability", .bool false),
    (py "decision", .str r.decision),
    (py "category_scores", .obj r.categoryScores),
    (py "raw_category_scores", .obj r.rawCategoryScores),
    (py "category_caps", .obj r.labels.categoryCaps),
    (py "decision_thresholds", .obj r.labels.decisionThresholds),
    (py "indicators", .arr (r.indicators.map Json.obj)),
    (py "contributing_indicators", .arr (ruleNames r.indicators)),
    (py "notes", .arr (r.notes.map Json.str))]

/-- `{category: 0 for category in _ALLOWED_CATEGORIES}`. -/
def emptyScores : Mapping F :=
  [(py "entropy", .int 0), (py "static", .int 0), (py "context", .int 0)]

/-- `degraded_result`. -/
def degradedResult (labels : PolicyLabels F) (rule : String) (evidence : Json F) :
    ScoringResult F where
  score := 0
  decision := py "ALLOW_MONITOR"
  indicators := [[(py "rule", .str (py rule)), (py "category", .str (py "system")),
    (py "weight", .int 0), (py "evidence", evidence),
    (py "description", .str (py ("Analysis could not be completed; the provisional fail-open " ++
      "policy allows execution only with monitoring and critical logging.")))]]
  categoryScores := emptyScores
  rawCategoryScores := emptyScores
  labels := labels
  scoringStatus := py "DEGRADED"
  notes := [py "FAIL_OPEN_REQUIRES_CRITICAL_AUDIT_RECORD"]

/-- What the analyzer works with, for one analysis. -/
structure Bench (T F : Type) where
  /-- `self.timeout`. -/
  timeout : T
  labels : PolicyLabels F
  /-- `self.pool.submit`. -/
  submit : Except Exc Unit
  /-- Whether the job ends within the time it is waited for. -/
  inTime : T → Bool
  /-- An exception of the future itself, such as `CancelledError`. -/
  future : Except Exc Unit
  /-- `self.scanner.scan_open_fd`. -/
  scan : Except Exc (StaticScanResult F)
  /-- `self.scoring_engine.score`. -/
  score : StaticScanResult F → Except Exc (ScoringResult F)
  /-- `self.evidence_analyst.analyze`. -/
  analyst : Mapping F → Except Exc (Json F)
  /-- A duration as a value of the evidence. -/
  seconds : T → Json F

/-- `result.setdefault("notes", []).append(note)`. -/
def appendNote (note : PyStr) (result : Mapping F) : Mapping F :=
  match lookup (py "notes") result with
  | some (.arr notes) => assign (py "notes") (.arr (notes ++ [.str note])) result
  | _ => assign (py "notes") (.arr [.str note]) result

section Analyze

variable [PyFloat F]

/-- The keys `_score_scan` adds to the scored result. -/
def scanItems (ai : Json F) (scan : StaticScanResult F) : Mapping F :=
  [(py "ai_analysis", ai), (py "scan_status", .str scan.status.text),
    (py "file_size", scan.fileSize), (py "mime_type", .str scan.mimeType),
    (py "is_elf", .bool scan.isElf), (py "block_entropies", .arr scan.blockEntropies),
    (py "whole_file_entropy", scan.wholeFileEntropy),
    (py "file_identity", .obj scan.fileIdentity),
    (py "identity_source", .str scan.identitySource)]

/-- The scored result with the facts of the scan. -/
def scanned (scored : ScoringResult F) (ai : Json F) (scan : StaticScanResult F) : Mapping F :=
  (scanItems ai scan).foldl (fun r kv => assign kv.1 kv.2 r) scored.toDict

/-- What `_score_scan` does last, by the status of the scan. -/
def markStatus (status : ScanStatus) (result : Mapping F) : Mapping F :=
  match status with
  | .ok => result
  | .error => assign (py "error") (.str (py "scan_error")) result
  | .partialScan =>
      appendNote (py "STATIC_SCAN_INCONCLUSIVE")
        (assign (py "scoring_status") (.str (py "INCONCLUSIVE"))
          (assign (py "decision") (.str (py "ALLOW_MONITOR")) result))

/-- `_score_scan`. -/
def Bench.scoreScan (b : Bench T F) (scan : StaticScanResult F) : Except Exc (Mapping F) := do
  let scored ← b.score scan
  let ai ← b.analyst scored.toDict
  return markStatus scan.status (scanned scored ai scan)

/-- `analyze_open_fd`, the job. -/
def Bench.analyzeOpenFd (b : Bench T F) : Except Exc (Mapping F) := do
  b.future
  let scan ← b.scan
  b.scoreScan scan

/-- A degraded result with the key that tells the controller. -/
def Bench.degraded (b : Bench T F) (rule : String) (evidence : Mapping F) (error : String) :
    Mapping F :=
  assign (py "error") (.str (py error)) (degradedResult b.labels rule (.obj evidence)).toDict

/-- `_degraded_timeout`. -/
def Bench.degradedTimeout (b : Bench T F) (filepath : PyStr) (timeout : Json F) : Mapping F :=
  b.degraded "ANALYSIS_TIMEOUT_FAIL_OPEN"
    [(py "filepath", .str filepath), (py "timeout_seconds", timeout)] "timeout"

/-- The exceptions of the job that `_wait` turns into a degraded result. -/
def caughtByWait : List ExcClass := [.osError, .valueError, .runtimeError]

variable [Zero T] [Min T] [LE T] [DecidableLE T]

/-- `_wait`, with a timeout. -/
def Bench.wait (b : Bench T F) (filepath : PyStr) (timeout : T) : Except Exc (Mapping F) :=
  let effective := min b.timeout timeout
  if effective ≤ 0 then .ok (b.degradedTimeout filepath (b.seconds 0))
  else if b.inTime effective = false then .ok (b.degradedTimeout filepath (b.seconds effective))
  else
    match b.analyzeOpenFd with
    | .ok result => .ok result
    | .error exc =>
        if exc.isIn [.timeoutError] then .ok (b.degradedTimeout filepath (b.seconds effective))
        else if exc.isIn caughtByWait then
          .ok (b.degraded "ANALYSIS_ERROR_FAIL_OPEN"
            [(py "filepath", .str filepath), (py "error_type", .str exc.cls.name)] "exception")
        else .error exc

/-- `analyze_open_fd_async`. -/
def Bench.analyzeOpenFdAsync (b : Bench T F) (filepath : PyStr) (timeout : T) :
    Except Exc (Mapping F) :=
  match b.submit with
  | .error exc => .error exc
  | .ok _ => b.wait filepath timeout

end Analyze

end Elyra.Analyzer
