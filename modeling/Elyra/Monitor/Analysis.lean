import Elyra.Analyzer.PreExecution
import Elyra.Python.After
import Elyra.Python.Floats

set_option autoImplicit false

/-! # Windows analyses

`WindowsStaticAnalyzer.analyze`: a file is scanned between two looks at its metadata, and the attempt is
repeated while it cannot be read. What happens in an attempt is given, for each attempt anew; what is
modelled is which results come of it and which of them carry a risk score. -/

namespace Elyra.Monitor.Analysis

open Elyra.Python

variable {F : Type} [OrderedFloat F]

/-! ## What can happen -/

/-- The `status` of a result. -/
inductive Status where
  | analyzed
  | partialScan
  | error
  | skippedNotFound
  | skippedUnsupportedFileType
  | skippedNonlocalPath
  | skippedFileTooLarge
  deriving DecidableEq, Repr

def Status.text : Status → PyStr
  | .analyzed => py "ANALYZED"
  | .partialScan => py "PARTIAL"
  | .error => py "ERROR"
  | .skippedNotFound => py "SKIPPED_NOT_FOUND"
  | .skippedUnsupportedFileType => py "SKIPPED_UNSUPPORTED_FILE_TYPE"
  | .skippedNonlocalPath => py "SKIPPED_NONLOCAL_PATH"
  | .skippedFileTooLarge => py "SKIPPED_FILE_TOO_LARGE"

/-- The statuses a `_ScanPolicyError` is raised with. -/
inductive Skip where
  | unsupportedFileType
  | nonlocalPath
  | fileTooLarge
  deriving DecidableEq, Repr

def Skip.status : Skip → Status
  | .unsupportedFileType => .skippedUnsupportedFileType
  | .nonlocalPath => .skippedNonlocalPath
  | .fileTooLarge => .skippedFileTooLarge

/-- An `Exception`, by the class that the handlers look for. `osError` is any other `OSError`,
    `runtimeError` any other `RuntimeError`. -/
inductive Raised where
  | scanPolicyError (skip : Skip) (reason : PyStr)
  | fileNotFoundError
  | unsupportedFileTypeError (text : PyStr)
  | fileAccessError (text : PyStr)
  | osError (name text : PyStr)
  | runtimeError (name : PyStr)
  | valueError (name : PyStr)
  | other (name : PyStr)
  deriving DecidableEq, Repr

/-- `except (OSError, RuntimeError, ValueError)` -/
def Raised.isUnresolved : Raised → Bool
  | .scanPolicyError _ _ => false
  | .other _ => false
  | _ => true

/-- What an `lstat` tells. -/
structure Metadata where
  isLink : Bool
  isRegular : Bool
  reparsePoint : Bool
  dev : Int
  ino : Int
  size : Int
  mtimeNs : Int
  ctimeNs : Int
  deriving DecidableEq, Repr

/-- `_identity` -/
def Metadata.identity (m : Metadata) : Int × Int × Int × Int × Int :=
  (m.dev, m.ino, m.size, m.mtimeNs, m.ctimeNs)

/-- What `lstat` does for the ancestors of a path and for the path. -/
structure Components where
  ancestors : List (Except Raised Metadata)
  leaf : Except Raised Metadata

/-- What is read of a `StaticScanResult` here; `asDict` is `to_dict()`. -/
structure Scan (F : Type) extends Analyzer.StaticScanResult F where
  errors : List (Mapping F)
  entropySummary : Mapping F
  warnings : List (Mapping F)
  elfValid : Option Bool
  isPe : Bool
  peSummary : Mapping F
  asDict : Mapping F

/-- What happens in an attempt: whether `_windows_read_guard` is entered, the two rounds of
    `_check_components`, and what the resolver, the scanner and the scoring engine do. -/
structure Attempt (F : Type) where
  enter : Except Raised Unit
  before : Components
  resolver : Except Raised PyStr
  scan : Except Raised (Scan F)
  after : Components
  score : Scan F → Except Raised (Analyzer.ScoringResult F)

/-- What paths are on this system. -/
structure Host where
  windows : Bool
  /-- `os.path.abspath`, which asks for the current directory if the path is not absolute. -/
  abspath : PyStr → Except Raised PyStr
  splitdrive : PyStr → PyStr × PyStr
  volumeIsLocal : PyStr → Bool
  /-- `text.upper()` -/
  upper : PyStr → PyStr

structure Settings (F : Type) where
  maxFileBytes : Int
  retryAttempts : Int
  retryDelaySeconds : F
  /-- `self._sleeper` -/
  sleeper : F → Except Raised Unit

/-- `x < 0` -/
def negative (x : F) : Bool :=
  match (OrderedFloat.ofInt 0 : Except PyExc F) with
  | .ok zero => OrderedFloat.le x zero && !OrderedFloat.le zero x
  | .error _ => false

/-- The check of the constructor, which raises `ValueError`. -/
def Settings.construct (c : Settings F) : Except PyStr Unit :=
  if c.maxFileBytes ≤ 0 ∨ c.retryAttempts < 0 ∨ negative c.retryDelaySeconds = true then
    .error (py "file limit must be positive; retry settings must be non-negative")
  else .ok ()

/-! ## The result -/

structure WindowsAnalysisResult (F : Type) where
  path : PyStr
  status : Status
  filesystemType : PyStr
  isNtfs : Bool
  attempts : Nat
  entropy : Option (Mapping F)
  reason : Option PyStr
  staticScan : Option (Mapping F)
  preExecutionScoring : Mapping F
  assessment : PyStr
  riskScore : Json F
  recommendedDecision : PyStr
  reasons : List PyStr
  limitations : List PyStr
  scoreIsProbability : Bool := false
  scoreKind : PyStr := py "PROVISIONAL_HEURISTIC_NOT_PROBABILITY"
  enforcedAction : PyStr := py "NONE"
  monitorMode : PyStr := py "MONITOR_ONLY"
  localOnly : Bool := true

/-- `[str(item.get("code", default)) for item in items]` -/
def codes (default : String) (items : List (Mapping F)) : List PyStr :=
  items.map fun item => pyStr ((lookup (py "code") item).getD (.str (py default)))

/-- `list(scoring.get("contributing_indicators", []))`, which are names of rules. -/
def contributing (scoring : Mapping F) : List PyStr :=
  match lookup (py "contributing_indicators") scoring with
  | some (.arr items) => items.filterMap fun
      | .str name => some name
      | _ => none
  | _ => []

/-- `entropy` of a result. -/
def entropyOf (scan : Scan F) : Option (Mapping F) :=
  if scan.entropySummary = [] then none
  else some (assign (py "reported_blocks") (.arr scan.blockEntropies) scan.entropySummary)

/-- Whether a result with this scoring is a measured one. -/
def isComplete (status : Status) (scoring : Mapping F) : Bool :=
  match lookup (py "scoring_status") scoring with
  | some (.str text) => decide (status = .analyzed ∧ text = py "OK")
  | _ => false

/-- `dict.update` -/
def update (scoring : Mapping F) (items : Mapping F) : Mapping F :=
  items.foldl (fun d kv => assign kv.1 kv.2 d) scoring

/-- The scoring that is embedded in a result. -/
def embedded (complete : Bool) (assessment decision : PyStr) (scoring : Mapping F) : Mapping F :=
  let scoring :=
    if complete then scoring
    else update scoring [(py "score", .null), (py "risk_score", .null),
      (py "decision", .str (py "INCONCLUSIVE")), (py "scoring_status", .str (py "INCOMPLETE"))]
  update scoring [(py "assessment", .str assessment), (py "recommended_decision", .str decision),
    (py "enforced_action", .str (py "NONE")), (py "score_is_probability", .bool false),
    (py "score_kind", .str (py "PROVISIONAL_HEURISTIC_NOT_PROBABILITY"))]

/-- `_result` -/
def result (path : PyStr) (status : Status) (attempts : Nat) (volume : PyStr) (reason : Option PyStr)
    (scan : Option (Scan F)) (scored : Option (Analyzer.ScoringResult F)) : WindowsAnalysisResult F :=
  let scoring := (scored.map Analyzer.ScoringResult.toDict).getD []
  let complete := isComplete status scoring
  let decision :=
    if complete then pyStr ((lookup (py "decision") scoring).getD (.str (py "INCONCLUSIVE")))
    else py "INCONCLUSIVE"
  let assessment :=
    if complete then
      if decision = py "WARN" ∨ decision = py "DENY" then py "SUSPICIOUS"
      else py "NO_HIGH_RISK_INDICATORS"
    else py "INCONCLUSIVE"
  { path := path
    status := status
    filesystemType := volume
    isNtfs := decide (volume = py "NTFS")
    attempts := attempts
    entropy := scan.bind entropyOf
    reason := reason
    staticScan := scan.map Scan.asDict
    preExecutionScoring := embedded complete assessment decision scoring
    assessment := assessment
    riskScore := if complete then (lookup (py "score") scoring).getD .null else .null
    recommendedDecision := decision
    reasons := ((reason.filter (· ≠ [])).toList ++ contributing scoring ++
      (scan.map fun scan => codes "UNKNOWN_ERROR" scan.errors).getD []).eraseDups
    limitations := ([py "STATIC_ANALYSIS_ONLY", py "HEURISTIC_RULES_NOT_CALIBRATED",
      py "NO_MALWARE_PROBABILITY_OR_CLEAN_CERTIFICATION", py "NO_EXECUTION_ENFORCEMENT"] ++
      (scan.map fun scan => codes "UNKNOWN_WARNING" scan.warnings ++
        if scan.isPe then [py "AUTHENTICODE_NOT_VERIFIED", py "PE_HEADERS_AND_SECTIONS_ONLY"]
        else []).getD []).eraseDups }

/-! ## An attempt -/

/-- The body of the loop of `_check_components`. -/
def checkComponent (lstat : Except Raised Metadata) : Except Raised Metadata := do
  let metadata ← lstat
  if metadata.isLink then throw (.scanPolicyError .unsupportedFileType (py "SYMLINK_NOT_SCANNED"))
  if metadata.reparsePoint then
    throw (.scanPolicyError .unsupportedFileType (py "REPARSE_POINT_NOT_SCANNED"))
  return metadata

/-- `_check_components` -/
def checkComponents (c : Components) : Except Raised Metadata := do
  c.ancestors.forM fun lstat => discard (checkComponent lstat)
  checkComponent c.leaf

/-- The variables that outlive an attempt. -/
structure Kept (F : Type) where
  volume : PyStr := py "UNKNOWN"
  lastScan : Option (Scan F) := none
  lastReason : PyStr := py "UNKNOWN_ANALYSIS_ERROR"

abbrev Attempted (F : Type) := EStateM Raised (Kept F)

/-- What another object returns or raises. -/
def outcome {α : Type} (x : Except Raised α) : Attempted F α :=
  match x with
  | .ok a => pure a
  | .error e => throw e

def raiseIf (bad : Prop) [Decidable bad] (e : Raised) : Attempted F Unit :=
  if bad then throw e else pure ()

/-- `last_reason = reason; raise FileAccessError(last_reason)` -/
def inaccessibleIf (bad : Prop) [Decidable bad] (reason : String) : Attempted F Unit :=
  if bad then do
    modify fun kept => { kept with lastReason := py reason }
    throw (.fileAccessError (py reason))
  else pure ()

/-- `str(self.filesystem_type_resolver(path) or "UNKNOWN").upper()`, or `"UNKNOWN"` if that raises one of
    the exceptions that are caught. -/
def volumeOf (h : Host) (resolver : Except Raised PyStr) : Except Raised PyStr :=
  match resolver with
  | .ok name => .ok (h.upper (if name = [] then py "UNKNOWN" else name))
  | .error e => if e.isUnresolved then .ok (py "UNKNOWN") else .error e

def unreadCodes : List PyStr :=
  ["FILE_READ_FAILED", "STAT_PERMISSION_DENIED", "STAT_FAILED", "ENTROPY_ANALYSIS_FAILED",
    "ELF_READ_ERROR", "PE_READ_ERROR"].map py

/-- `value == n` for an integer -/
def equalsInt (value : Json F) (n : Int) : Bool :=
  match value with
  | .int m => decide (m = n)
  | .bool b => decide ((if b then 1 else 0) = n)
  | .float f =>
      -- equal numbers: the float has no fraction, and its integer is `n`
      match FloatNum.trunc f with
      | .error _ => false
      | .ok m =>
          match (OrderedFloat.ofInt m : Except PyExc F) with
          | .error _ => false
          | .ok g => decide (m = n) && OrderedFloat.le f g && OrderedFloat.le g f
  | _ => false

/-- `pe_status` -/
def peStatus (scan : Scan F) : Json F := (lookup (py "status") scan.peSummary).getD (.str (py "NOT_PE"))

/-- `pe_status in {"NOT_PE", "COMPLETE"}`; a list or a dictionary has no hash. -/
def peStatusComplete (scan : Scan F) : Except Raised Bool :=
  match peStatus scan with
  | .str text => .ok (decide (text = py "NOT_PE" ∨ text = py "COMPLETE"))
  | .arr _ => .error (.other (py "TypeError"))
  | .obj _ => .error (.other (py "TypeError"))
  | _ => .ok false

/-- `entropy_bytes == after.st_size` -/
def covers (scan : Scan F) (size : Int) : Bool :=
  match lookup (py "bytes_analyzed") scan.entropySummary with
  | some value => equalsInt value size
  | none => false

/-- `complete`: what stands before the PE status in it is looked at first. -/
def completeOf (scan : Scan F) (size : Int) (scored : Analyzer.ScoringResult F) : Except Raised Bool :=
  if scan.status = .ok ∧ scan.errors = [] ∧ covers scan size = true ∧
      (scan.isElf = true → scan.elfValid ≠ none) then do
    let pe ← peStatusComplete scan
    return pe && decide (scored.scoringStatus = py "OK")
  else .ok false

/-- What the `try` statement ends with if nothing is raised. -/
structure Measured (F : Type) where
  complete : Bool
  scan : Scan F
  scored : Analyzer.ScoringResult F

/-- The `try` statement, up to the scan. -/
def lookBefore (h : Host) (c : Settings F) (a : Attempt F) : Attempted F Metadata := do
  outcome a.enter
  let before ← outcome (checkComponents a.before)
  raiseIf (before.isRegular = false) (.scanPolicyError .unsupportedFileType (py "NOT_A_REGULAR_FILE"))
  raiseIf (c.maxFileBytes < before.size) (.scanPolicyError .fileTooLarge
    (py "FILE_SIZE_EXCEEDS_" ++ intText c.maxFileBytes ++ py "_BYTE_LIMIT"))
  let volume ← outcome (volumeOf h a.resolver)
  modify fun kept => { kept with volume := volume }
  return before

/-- The `try` statement, from the scan on. -/
def measure (c : Settings F) (a : Attempt F) (before : Metadata) : Attempted F (Measured F) := do
  let scan ← outcome a.scan
  modify fun kept => { kept with lastScan := some scan }
  let after ← outcome (checkComponents a.after)
  inaccessibleIf (before.identity ≠ after.identity) "FILE_CHANGED_DURING_ANALYSIS"
  raiseIf (c.maxFileBytes < after.size) (.scanPolicyError .fileTooLarge
    (py "FILE_GREW_BEYOND_ANALYSIS_BYTE_LIMIT"))
  let scored ← outcome (a.score scan)
  inaccessibleIf (∃ code ∈ codes "" scan.errors, code ∈ unreadCodes) "STATIC_FILE_READ_INCOMPLETE"
  let complete ← outcome (completeOf scan after.size scored)
  return ⟨complete, scan, scored⟩

/-- The `try` statement of an attempt. -/
def attemptOnce (h : Host) (c : Settings F) (a : Attempt F) : Attempted F (Measured F) := do
  let before ← lookBefore h c a
  measure c a before

/-! ## `analyze` -/

/-- `local_path_rejection(filepath, inspect_components=False)` -/
def localPathRejection (h : Host) (supplied : PyStr) : Except Raised (Option PyStr) :=
  if [92, 92] <+: supplied.map (fun c => if c = 47 then 92 else c) then
    .ok (some (py "UNC_OR_DEVICE_PATH_NOT_SCANNED"))
  else
    match h.abspath supplied with
    | .error e => .error e
    | .ok absolute =>
        if h.windows = true ∧ 58 ∈ (h.splitdrive absolute).2 then
          .ok (some (py "ALTERNATE_DATA_STREAM_NOT_SCANNED"))
        else if h.volumeIsLocal absolute = false then .ok (some (py "LOCAL_VOLUME_NOT_VERIFIED"))
        else .ok none

/-- The status for such a reason. -/
def rejectionStatus (reason : PyStr) : Status :=
  if reason = py "ALTERNATE_DATA_STREAM_NOT_SCANNED" then .skippedUnsupportedFileType
  else .skippedNonlocalPath

/-- What an attempt that has raised comes to. -/
inductive Handled (F : Type) where
  | done (r : WindowsAnalysisResult F)
  /-- `last_reason`, and on to the next attempt if there is one. -/
  | again (lastReason : PyStr)

/-- The `except` clauses. -/
def handled (label : PyStr) (attempt : Nat) (kept : Kept F) : Raised → Handled F
  | .scanPolicyError skip reason =>
      .done (result label skip.status attempt kept.volume (some reason) kept.lastScan none)
  | .fileNotFoundError =>
      .done (result label .skippedNotFound attempt kept.volume (some (py "FILE_CHANGED_BEFORE_ANALYSIS"))
        kept.lastScan none)
  | .unsupportedFileTypeError text =>
      .done (result label .skippedUnsupportedFileType attempt kept.volume (some text) kept.lastScan none)
  | .fileAccessError text => .again (py "FileAccessError: " ++ text)
  | .osError name text => .again (name ++ py ": " ++ text)
  | .runtimeError name => failed name
  | .valueError name => failed name
  | .other name => failed name
where
  failed (name : PyStr) : Handled F :=
    .done (result label .error attempt kept.volume (some (py "ANALYSIS_FAILED:" ++ name)) kept.lastScan none)

/-- The loop over the attempts, from an attempt on; so many are left after it. -/
def attemptsFrom (h : Host) (c : Settings F) (env : Nat → Attempt F) (label : PyStr) :
    Nat → Nat → Kept F → Except Raised (WindowsAnalysisResult F)
  | left, attempt, kept =>
      match attemptOnce h c (env attempt) kept with
      | .ok m kept =>
          .ok (result label (if m.complete then .analyzed else .partialScan) attempt kept.volume
            (if m.complete then none else some (py "STATIC_ANALYSIS_INCOMPLETE")) (some m.scan)
            (some m.scored))
      | .error e kept =>
          match handled label attempt kept e with
          | .done r => .ok r
          | .again lastReason =>
              let kept := { kept with lastReason := lastReason }
              match left with
              | 0 => .ok (result label .error attempt kept.volume (some kept.lastReason) kept.lastScan none)
              | left + 1 => do
                  if !FloatNum.isZero c.retryDelaySeconds then c.sleeper c.retryDelaySeconds
                  attemptsFrom h c env label left (attempt + 1) kept

/-- `analyze`; an exception is one that gets out of it. -/
def analyze (h : Host) (c : Settings F) (env : Nat → Attempt F) (filepath : PyStr) :
    Except Raised (WindowsAnalysisResult F) :=
  match localPathRejection h filepath with
  | .error e => .error e
  | .ok (some reason) =>
      .ok (result filepath (rejectionStatus reason) 0 (py "UNKNOWN") (some reason) none none)
  | .ok none => do
      let path ← h.abspath filepath
      attemptsFrom h c env path c.retryAttempts.toNat 1 {}

end Elyra.Monitor.Analysis
