import Elyra.Fanotify.FailClosed
import Elyra.Scoring.Loading

set_option autoImplicit false
set_option linter.unusedSectionVars false

/-! # The two adapters of the scoring engine

`scan_file` answers an IPC client with what the engine makes of a scan; `_score_scan` hands the fanotify
controller the same, with the facts of the scan. For a `PARTIAL` scan the second takes the decision back,
the first does not, so that is where they differ (`adapters_agree_iff`). -/

namespace Elyra.Service

open Elyra.Python Elyra.Analyzer Elyra.Scoring

variable {T F : Type} [OrderedFloat F]

/-! ## `scan_file` -/

/-- What `_handle_ipc_action` returns for `scan_file`, after the scan; `asDict` is `scan.to_dict()`. -/
def scanFile (policy : ScoringPolicy F) (asDict : Mapping F) (scan : Scoring.StaticScanResult F) :
    Except ScoringError (Mapping F) := do
  let scored ← policy.score scan
  return assign (py "pre_execution_scoring") (.obj scored.report.toDict) asDict

/-- `reply["pre_execution_scoring"][key]` -/
def scoringField (key : PyStr) (reply : Mapping F) : Option (Json F) :=
  match lookup (py "pre_execution_scoring") reply with
  | some (.obj scoring) => lookup key scoring
  | _ => none

/-! ## `_score_scan` -/

/-- The bench on which the engine scores this scan; `raised` is the exception that is an error of it. -/
def withEngine (b : Bench T F) (policy : ScoringPolicy F) (raised : ScoringError → Exc)
    (scan : Scoring.StaticScanResult F) : Bench T F :=
  { b with
    scan := .ok scan.toStaticScanResult
    score := fun _ => ((policy.score scan).map Scoring.ScoringResult.report).mapError raised }

variable {policy : ScoringPolicy F} {scan : Scoring.StaticScanResult F} {b : Bench T F}
  {raised : ScoringError → Exc} {asDict reply handed : Mapping F} {key : PyStr}

theorem toDict_scoringStatus (r : Analyzer.ScoringResult F) :
    lookup (py "scoring_status") r.toDict = some (.str r.scoringStatus) := rfl

/-- What the client reads is what the engine has said. -/
theorem scoringField_of_ok (h : scanFile policy asDict scan = .ok reply) :
    ∃ scored, policy.score scan = .ok scored ∧
      scoringField key reply = lookup key scored.report.toDict := by
  obtain ⟨scored, hscored, h⟩ := bind_ok.1 h
  obtain rfl := Except.ok.inj h
  refine ⟨scored, hscored, ?_⟩
  rw [scoringField, lookup_assign, if_pos rfl]

/-- What the controller is handed is what the engine has said, marked by the status of the scan. -/
theorem handed_of_ok
    (h : (withEngine b policy raised scan).scoreScan scan.toStaticScanResult = .ok handed) :
    ∃ scored ai, policy.score scan = .ok scored ∧
      handed = markStatus scan.status (scanned scored.report ai scan.toStaticScanResult) := by
  obtain ⟨report, hreport, h⟩ := bind_ok.1 h
  obtain ⟨ai, -, h⟩ := bind_ok.1 h
  obtain ⟨scored, hscored, rfl⟩ := map_eq_ok (mapError_ok.1 hreport)
  exact ⟨scored, ai, hscored, (Except.ok.inj h).symm⟩

/-- The keys that both adapters report. -/
def reported : List PyStr := [py "decision", py "scoring_status"]

/-- The facts of the scan do not touch them. -/
theorem scanned_reported (hkey : key ∈ reported) (scored : Analyzer.ScoringResult F) (ai : Json F)
    (s : Analyzer.StaticScanResult F) : lookup key (scanned scored ai s) = lookup key scored.toDict := by
  have hnd : (keys (Analyzer.scanItems ai s)).Nodup := by
    simp only [keys, Analyzer.scanItems, List.map_cons, List.map_nil]
    decide
  have hitems : lookup key (Analyzer.scanItems ai s) = none := by
    obtain rfl | rfl := List.mem_pair.1 hkey
    · rfl
    · rfl
  have hupdated : scanned scored ai s = Fanotify.updated (Analyzer.scanItems ai s) scored.toDict := rfl
  rw [hupdated, Fanotify.lookup_updated hnd, hitems, Option.none_or]

/-- Unless the scan is `PARTIAL`, marking its status does not touch them either. -/
theorem markStatus_reported (hkey : key ∈ reported) {status : ScanStatus} (hstatus : status ≠ .partialScan)
    (result : Mapping F) : lookup key (markStatus status result) = lookup key result := by
  cases status with
  | ok => rfl
  | partialScan => exact absurd rfl hstatus
  | error =>
      have hne : key ≠ py "error" := by
        rintro rfl
        revert hkey
        decide
      rw [markStatus, lookup_assign, if_neg hne]

theorem markStatus_inconclusive (result : Mapping F) :
    lookup (py "scoring_status") (markStatus .partialScan result) = some (.str (py "INCONCLUSIVE")) := by
  have hstatus : py "scoring_status" ≠ py "notes" := by decide
  rw [markStatus, Fanotify.appendNote_lookup hstatus, lookup_assign, if_pos rfl]

/-- The engine calls every scan that has not failed `OK`. -/
theorem scoringStatus_ok (hstatus : scan.status ≠ .error) {scored : Scoring.ScoringResult F}
    (h : policy.score scan = .ok scored) : scored.scoringStatus = py "OK" := by
  rw [ScoringPolicy.score, if_neg hstatus] at h
  obtain ⟨entropy, -, h⟩ := bind_ok.1 h
  obtain ⟨static, -, h⟩ := bind_ok.1 h
  obtain ⟨context, -, h⟩ := bind_ok.1 h
  obtain ⟨filed, -, h⟩ := bind_ok.1 h
  obtain ⟨capped, -, h⟩ := bind_ok.1 h
  obtain ⟨⟨d, notes⟩, -, h⟩ := bind_ok.1 h
  obtain rfl := Except.ok.inj h
  rfl

/-! ## Agreement -/

/-- The client and the controller are told the same, and neither that a `PARTIAL` scan is denied. -/
structure Agree (scan : Scoring.StaticScanResult F) (reply handed : Mapping F) : Prop where
  same : ∀ key ∈ reported, scoringField key reply = lookup key handed
  undenied : scan.status = .partialScan →
    scoringField (py "decision") reply ≠ some (.str (py "DENY")) ∧
      lookup (py "decision") handed ≠ some (.str (py "DENY"))

/-- The two adapters agree on a scan exactly if it is not `PARTIAL`. -/
theorem adapters_agree_iff (hreply : scanFile policy asDict scan = .ok reply)
    (hhanded : (withEngine b policy raised scan).scoreScan scan.toStaticScanResult = .ok handed) :
    Agree scan reply handed ↔ scan.status ≠ .partialScan := by
  obtain ⟨scored, ai, hscored, rfl⟩ := handed_of_ok hhanded
  have hclient : ∀ key, scoringField key reply = lookup key scored.report.toDict := by
    intro key
    obtain ⟨scored', hscored', h⟩ := scoringField_of_ok hreply
    obtain rfl := Except.ok.inj (hscored.symm.trans hscored')
    exact h
  constructor
  · intro hagree hscanPartial
    have hsame := hagree.same (py "scoring_status") (by decide)
    have hok := scoringStatus_ok (by rw [hscanPartial]; decide) hscored
    rw [hclient, toDict_scoringStatus, hscanPartial, markStatus_inconclusive] at hsame
    have htexts : py "OK" = py "INCONCLUSIVE" := hok.symm.trans (Json.str.inj (Option.some.inj hsame))
    exact absurd htexts (by decide)
  · intro hstatus
    refine ⟨fun key hkey => ?_, fun hscanPartial => absurd hscanPartial hstatus⟩
    rw [hclient, markStatus_reported hkey hstatus, scanned_reported hkey]

/-! ## A `PARTIAL` scan with evidence -/

/-- A policy that denies a file with the set-user-id bit. -/
def suidPolicy : ScoringPolicy SampleFloat :=
  samplePolicy 50 (withRule (entropyPolicy 50).rules .suidBitSet .static 60)

/-- The scan of such a file, parts of which could not be read. -/
def partialSuidScan : Scoring.StaticScanResult SampleFloat := { suidScan with status := .partialScan }

/-- A bench whose analyst has nothing to say. -/
def plainBench : Bench Nat SampleFloat where
  timeout := 1
  labels := ⟨[], [], [], [], []⟩
  submit := .ok ()
  inTime := fun _ => true
  future := .ok ()
  scan := .error ⟨.osError, []⟩
  score := fun _ => .error ⟨.valueError, []⟩
  analyst := fun _ => .ok .null
  seconds := fun _ => .null

theorem decision_of_outcome (policy : ScoringPolicy F) (scan : Scoring.StaticScanResult F) (d : Decision)
    (h : (outcome policy scan).map (fun x => x.2.1) = .ok d) :
    ∃ scored, policy.score scan = .ok scored ∧ scored.decision = d := by
  obtain ⟨⟨score, d, rules⟩, houtcome, rfl⟩ := map_eq_ok h
  obtain ⟨scored, hscored, -, hdecision, -⟩ := outcome_ok houtcome
  exact ⟨scored, hscored, hdecision⟩

/-- Both adapters report what the engine has scored. -/
theorem adapters_ok (b : Bench T F) (raised : ScoringError → Exc) (asDict : Mapping F)
    {scored : Scoring.ScoringResult F} {ai : Json F} (h : policy.score scan = .ok scored)
    (hanalyst : b.analyst scored.report.toDict = .ok ai) :
    scanFile policy asDict scan =
        .ok (assign (py "pre_execution_scoring") (.obj scored.report.toDict) asDict) ∧
      (withEngine b policy raised scan).scoreScan scan.toStaticScanResult =
        .ok (markStatus scan.status (scanned scored.report ai scan.toStaticScanResult)) := by
  constructor
  · exact bind_ok.2 ⟨scored, h, rfl⟩
  · refine bind_ok.2 ⟨scored.report, ?_, bind_ok.2 ⟨ai, hanalyst, rfl⟩⟩
    rw [withEngine, h]
    rfl

/-- An accepted policy, and a `PARTIAL` scan: the client is told `DENY`, the controller is not. -/
theorem partial_scan_differs :
    suidPolicy.validate = .ok () ∧ ∃ reply handed,
      scanFile suidPolicy [] partialSuidScan = .ok reply ∧
      (withEngine plainBench suidPolicy (fun _ => ⟨.valueError, []⟩) partialSuidScan).scoreScan
        partialSuidScan.toStaticScanResult = .ok handed ∧
      scoringField (py "decision") reply = some (.str (py "DENY")) ∧
      lookup (py "decision") handed = some (.str (py "ALLOW_MONITOR")) ∧
      ¬Agree partialSuidScan reply handed := by
  obtain ⟨scored, hscored, hdecision⟩ :=
    decision_of_outcome suidPolicy partialSuidScan .deny (by decide +kernel)
  obtain ⟨hreply, hhanded⟩ := adapters_ok plainBench (fun _ => ⟨.valueError, []⟩) [] hscored rfl
  have hdenied : scoringField (py "decision") (assign (py "pre_execution_scoring")
      (.obj scored.report.toDict) []) = some (.str (py "DENY")) := by
    rw [scoringField, lookup_assign, if_pos rfl]
    change some (Json.str scored.decision.text) = _
    rw [hdecision]
    rfl
  refine ⟨by decide +kernel, _, _, hreply, hhanded, hdenied, (Fanotify.markStatus_partialScan _).2, fun hagree => ?_⟩
  exact (hagree.undenied rfl).1 hdenied

/-- The same file, read to its end: both are told `DENY`. -/
theorem complete_scan_agrees : ∃ reply handed,
    scanFile suidPolicy [] suidScan = .ok reply ∧
    (withEngine plainBench suidPolicy (fun _ => ⟨.valueError, []⟩) suidScan).scoreScan
      suidScan.toStaticScanResult = .ok handed ∧
    Agree suidScan reply handed := by
  obtain ⟨scored, hscored, -⟩ :=
    decision_of_outcome suidPolicy suidScan .deny (by decide +kernel)
  obtain ⟨hreply, hhanded⟩ := adapters_ok plainBench (fun _ => ⟨.valueError, []⟩) [] hscored rfl
  exact ⟨_, _, hreply, hhanded, (adapters_agree_iff hreply hhanded).2 (by decide)⟩

end Elyra.Service
