import Elyra.Fanotify.Answer
import Elyra.Analyzer.PreExecution

set_option autoImplicit false
set_option linter.unusedSectionVars false

/-! # Fail-closed paths

Under a fail-closed path an execution whose analysis is not complete should be denied. The controller
recognises an incomplete analysis by an `error` key, a decision it does not know or a passed deadline.
Four kinds get past it: a `PARTIAL` scan, which comes with the decision `ALLOW_MONITOR` and no `error`
key; an exception of the job that `_wait` does not catch; an exception of `submit`, which is outside of
its `try` statement; and one of the ancestry check, which comes before the analysis. -/

namespace Elyra.Fanotify

open Elyra.Python Elyra.Correlation Elyra.Analyzer

variable {T F : Type} [FloatNum F] [Zero T] [Add T] [Sub T] [Min T] [LE T] [DecidableLE T]

/-- `event.path or f"/proc/self/fd/{event.fd}"`. -/
def FanotifyEvent.filepath (event : FanotifyEvent T) : PyStr :=
  (event.path.filter (· ≠ [])).getD (py "/proc/self/fd/" ++ intText event.fd)

/-- The world in which the analyzer is the one of this bench. -/
def World.analysedBy (w : World T F) (b : Bench T F) (event : FanotifyEvent T) : World T F :=
  { w with analysis := fun remaining =>
      (b.analyzeOpenFdAsync event.filepath remaining).map Json.obj }

/-- An event under a fail-closed path, in `ENFORCEMENT` mode, that the controller has no other reason
    to let through. The process is not ELYRA's own, which the ancestry check finds if it completes. -/
structure FailClosedTarget (p : FanotifyPolicy T) (w : World T F) (event : FanotifyEvent T) :
    Prop where
  failureMode : w.failureMode = .enforcement
  finalMode : w.finalMode = .enforcement
  known : ∃ path, event.path = some path ∧ path ≠ []
  closed : p.getFailPolicy (w.cwd 2) event.path = .ok .failClosed
  foreign : ∀ own, ownProcess p w event = .ok own → own = false
  notExcluded : p.isExcludedPath (w.cwd 0) event.path = .ok false
  monitored : p.shouldMonitor (w.cwd 1) event.path = .ok true
  regular : ∀ m, w.fstat = .ok m → m.regular = true ∧ m.size ≤ p.maxPreexecFileBytes

section Analysis

variable (p : FanotifyPolicy T) (w : World T F) (b : Bench T F) (event : FanotifyEvent T)

/-- `event.received_monotonic + self.policy.max_response_seconds`. -/
def deadline : T := event.receivedMonotonic + p.maxResponseSeconds

/-- `_parent_pid` raises an exception that it does not catch. -/
def AncestryRaises : Prop :=
  event.parseError.filter (· ≠ []) = none ∧ ∃ exc, ownProcess p w event = .error exc

/-- The event gets as far as the analyzer. -/
def Submits : Prop :=
  event.parseError.filter (· ≠ []) = none ∧ ownProcess p w event = .ok false ∧
    (∃ m, w.fstat = .ok m) ∧ ¬ deadline p event - w.submitClock ≤ 0

/-- The time the job is waited for. -/
def patience : T := min b.timeout (deadline p event - w.submitClock)

/-- The job was submitted and ends while it is waited for. -/
def JobEnds : Prop :=
  b.submit = .ok () ∧ ¬ patience p w b event ≤ 0 ∧ b.inTime (patience p w b event) = true

/-- The job ends with a scan of this status and a scoring of it. -/
def Scored (status : ScanStatus) (scored : ScoringResult F) : Prop :=
  b.future = .ok () ∧ ∃ scan ai, b.scan = .ok scan ∧ scan.status = status ∧
    b.score scan = .ok scored ∧ b.analyst scored.toDict = .ok ai

/-- The analysis completes with scan status `OK` and a valid decision before the deadline. -/
def Completes : Prop :=
  Submits p w event ∧ JobEnds p w b event ∧ ¬ deadline p event ≤ w.doneClock ∧
    ∃ scored, Scored b .ok scored ∧ upper scored.decision ∈ validDecisions

/-- The event ends in one of the ways the controller takes for an answer: an exception gets through, or
    the scan is `PARTIAL`. -/
def Escapes : Prop :=
  AncestryRaises p w event ∨
    Submits p w event ∧
      ((∃ exc, b.submit = .error exc) ∨
        JobEnds p w b event ∧
          ((∃ exc, b.analyzeOpenFd = .error exc ∧ exc.isIn caughtByWait = false) ∨
            ¬ deadline p event ≤ w.doneClock ∧ ∃ scored, Scored b .partialScan scored))

end Analysis

/-! ## What the analyzer returns -/

section Bench

variable {b : Bench T F}

/-- A result that says so itself is incomplete. -/
def TellsError (result : Mapping F) : Prop :=
  ∃ text, text ≠ [] ∧ lookup (py "error") result = some (.str text)

theorem degraded_tellsError (rule error : String) (evidence : Mapping F) (h : py error ≠ []) :
    TellsError (b.degraded rule evidence error) :=
  ⟨py error, h, by rw [Bench.degraded, lookup_assign, if_pos rfl]⟩

theorem scanned_lookup (scored : ScoringResult F) (ai : Json F) (scan : StaticScanResult F) :
    lookup (py "error") (scanned scored ai scan) = none ∧
      lookup (py "decision") (scanned scored ai scan) = some (.str scored.decision) := by
  have hnd : (keys (scanItems ai scan)).Nodup := by
    simp only [keys, scanItems, List.map_cons, List.map_nil]
    decide
  have hupdated : scanned scored ai scan = updated (scanItems ai scan) scored.toDict := rfl
  rw [hupdated, lookup_updated hnd, lookup_updated hnd]
  exact ⟨rfl, rfl⟩

theorem appendNote_lookup {k : PyStr} (hk : k ≠ py "notes") (note : PyStr) (result : Mapping F) :
    lookup k (appendNote note result) = lookup k result := by
  unfold appendNote
  split
  · rw [lookup_assign, if_neg hk]
  · rw [lookup_assign, if_neg hk]

theorem markStatus_partialScan (result : Mapping F) :
    lookup (py "error") (markStatus .partialScan result) = lookup (py "error") result ∧
      lookup (py "decision") (markStatus .partialScan result) =
        some (.str (py "ALLOW_MONITOR")) := by
  have herror : py "error" ≠ py "notes" ∧ py "error" ≠ py "scoring_status" ∧
      py "error" ≠ py "decision" := by decide
  have hdecision : py "decision" ≠ py "notes" ∧ py "decision" ≠ py "scoring_status" := by decide
  refine ⟨?_, ?_⟩
  · rw [markStatus, appendNote_lookup herror.1, lookup_assign, if_neg herror.2.1, lookup_assign,
      if_neg herror.2.2]
  · rw [markStatus, appendNote_lookup hdecision.1, lookup_assign, if_neg hdecision.2, lookup_assign,
      if_pos rfl]

/-- What the job returns, by the status of the scan. -/
theorem analyzeOpenFd_ok {result : Mapping F} (h : b.analyzeOpenFd = .ok result) :
    ∃ status scored, Scored b status scored ∧
      match status with
      | .ok => lookup (py "error") result = none ∧
          lookup (py "decision") result = some (.str scored.decision)
      | .error => TellsError result
      | .partialScan => lookup (py "error") result = none ∧
          lookup (py "decision") result = some (.str (py "ALLOW_MONITOR")) := by
  unfold Bench.analyzeOpenFd at h
  cases hfuture : b.future with
  | error exc => rw [hfuture] at h; cases h
  | ok u =>
      cases hscan : b.scan with
      | error exc => rw [hfuture, hscan] at h; cases h
      | ok scan =>
          cases hscore : b.score scan with
          | error exc =>
              simp only [hfuture, hscan, hscore, bind, Except.bind, Bench.scoreScan] at h
              cases h
          | ok scored =>
              cases hai : b.analyst scored.toDict with
              | error exc =>
                  simp only [hfuture, hscan, hscore, hai, bind, Except.bind, Bench.scoreScan] at h
                  cases h
              | ok ai =>
                  simp only [hfuture, hscan, hscore, hai, bind, Except.bind, Bench.scoreScan] at h
                  cases h
                  refine ⟨scan.status, scored, ⟨hfuture, scan, ai, hscan, rfl, hscore, hai⟩, ?_⟩
                  have hlook := scanned_lookup scored ai scan
                  cases scan.status with
                  | ok => exact hlook
                  | error => exact ⟨py "scan_error", by decide, by rw [markStatus, lookup_assign, if_pos rfl]⟩
                  | partialScan =>
                      have hmark := markStatus_partialScan (scanned scored ai scan)
                      exact ⟨hmark.1.trans hlook.1, hmark.2⟩

theorem Scored.unique {status status' : ScanStatus} {scored scored' : ScoringResult F}
    (h : Scored b status scored) (h' : Scored b status' scored') :
    status = status' ∧ scored = scored' := by
  obtain ⟨-, scan, ai, hscan, hstatus, hscore, -⟩ := h
  obtain ⟨-, scan', ai', hscan', hstatus', hscore', -⟩ := h'
  rw [hscan] at hscan'
  cases hscan'
  rw [hscore] at hscore'
  cases hscore'
  exact ⟨hstatus.symm.trans hstatus', rfl⟩

theorem Scored.analyzeOpenFd {status : ScanStatus} {scored : ScoringResult F}
    (h : Scored b status scored) : ∃ result, b.analyzeOpenFd = .ok result := by
  obtain ⟨hfuture, scan, ai, hscan, -, hscore, hai⟩ := h
  simp only [Bench.analyzeOpenFd, hfuture, hscan, hscore, hai, bind, Except.bind, Bench.scoreScan]
  exact ⟨_, rfl⟩

/-- What `_wait` makes of the job. -/
theorem wait_cases (filepath : PyStr) (timeout : T) :
    (∃ result, b.wait filepath timeout = .ok result ∧ TellsError result ∧
      (¬ (¬ min b.timeout timeout ≤ 0 ∧ b.inTime (min b.timeout timeout) = true) ∨
        ∃ exc, b.analyzeOpenFd = .error exc ∧ exc.isIn caughtByWait = true)) ∨
    (¬ min b.timeout timeout ≤ 0 ∧ b.inTime (min b.timeout timeout) = true ∧
      ((∃ exc, b.analyzeOpenFd = .error exc ∧ exc.isIn caughtByWait = false ∧
          b.wait filepath timeout = .error exc) ∨
        ∃ result, b.analyzeOpenFd = .ok result ∧ b.wait filepath timeout = .ok result)) := by
  have htimeout : ∀ seconds : Json F, TellsError (b.degradedTimeout filepath seconds) :=
    fun seconds => degraded_tellsError _ _ _ (by decide)
  unfold Bench.wait
  dsimp only
  split
  · next hle => exact .inl ⟨_, rfl, htimeout _, .inl fun h => h.1 hle⟩
  · next hpos =>
    split
    · next hlate =>
      refine .inl ⟨_, rfl, htimeout _, .inl ?_⟩
      rw [hlate]
      exact fun h => absurd h.2 (by decide)
    · next hin =>
      have hin : b.inTime (min b.timeout timeout) = true := by simpa using hin
      cases hjob : b.analyzeOpenFd with
      | ok result => exact .inr ⟨hpos, hin, .inr ⟨result, rfl, rfl⟩⟩
      | error exc =>
          dsimp only
          split
          · next htimed =>
            -- `TimeoutError` is an `OSError`
            refine .inl ⟨_, rfl, htimeout _, .inr ⟨exc, rfl, ?_⟩⟩
            have hcls : exc.cls = .timeoutError := by
              simp only [Exc.isIn, List.any_cons, List.any_nil, Bool.or_false, ExcClass.isA,
                Bool.or_eq_true, beq_iff_eq] at htimed
              rcases htimed with h | h
              · exact h
              · cases hc : exc.cls <;> rw [hc] at h <;> simp [ExcClass.base] at h
            simp [Exc.isIn, hcls, caughtByWait, ExcClass.isA, ExcClass.base]
          · split
            · next hcaught =>
              exact .inl ⟨_, rfl, degraded_tellsError _ _ _ (by decide), .inr ⟨exc, rfl, hcaught⟩⟩
            · next hfree =>
              exact .inr ⟨hpos, hin, .inl ⟨exc, rfl, by simpa using hfree, rfl⟩⟩

end Bench

/-! ## What the controller makes of it -/

section Target

variable {p : FanotifyPolicy T} {w : World T F} {b : Bench T F} {event : FanotifyEvent T}

/-- The event is denied. -/
def Denies (p : FanotifyPolicy T) (w : World T F) (event : FanotifyEvent T) : Prop :=
  ∃ r, (Py.final (handleEvent p w event) Frame.new).responses = [r] ∧ r.value = fanDeny

theorem decisionItems_of_obj {d : Decision F} {kvs : Mapping F} (h : d.analysis = .obj kvs)
    (finalAction : PyStr) : ∃ items, decisionItems d finalAction = .ok items := by
  simp only [decisionItems, h, fieldOrNone, getField, bind, Except.bind, Except.map]
  exact ⟨_, rfl⟩

/-- A decision on an analysis that can be read decides the answer. -/
theorem denies_iff_requested {d : Decision F} {kvs : Mapping F}
    (heval : evaluateEvent p w event = .ok d) (hobj : d.analysis = .obj kvs)
    (hmode : w.finalMode = .enforcement) : Denies p w event ↔ d.requested = py "DENY" := by
  obtain ⟨items, hitems⟩ := decisionItems_of_obj hobj (getFinalAction w.finalMode d.requested)
  obtain ⟨r, record, hresponses, -, -, -, hdeny⟩ := handleEvent_response p w event
  constructor
  · rintro ⟨r', hr', hvalue⟩
    rw [hresponses] at hr'
    cases hr'
    obtain ⟨d', items', hdec, -, hreq⟩ := hdeny.1 hvalue
    have hsame : d' = d := Except.ok.inj (hdec.1.symm.trans heval)
    rw [← hsame]
    exact hreq
  · intro hreq
    exact ⟨r, hresponses, hdeny.2 ⟨d, items, ⟨heval, hitems⟩, hmode, hreq⟩⟩

theorem not_denies_of_error {exc : Exc} (heval : evaluateEvent p w event = .error exc) :
    ¬ Denies p w event := by
  obtain ⟨r, record, hresponses, -, -, -, hdeny⟩ := handleEvent_response p w event
  rintro ⟨r', hr', hvalue⟩
  rw [hresponses] at hr'
  cases hr'
  obtain ⟨d, items, hdec, -⟩ := hdeny.1 hvalue
  have hok := hdec.1
  rw [heval] at hok
  cases hok

/-- The analysis a decision is about, when `_failure_decision` was given `None` or a result. -/
theorem denies_of_failure (hclosed : p.getFailPolicy (w.cwd 2) event.path = .ok .failClosed)
    (hfail : w.failureMode = .enforcement) (hmode : w.finalMode = .enforcement)
    {reason : PyStr} {analysis : Json F} (hkind : analysis = .null ∨ ∃ kvs, analysis = .obj kvs)
    (heval : evaluateEvent p w event = failureDecision p w event.path reason analysis) :
    Denies p w event := by
  have hdecision : failureDecision p w event.path reason analysis =
      .ok ⟨py "DENY", reason ++ py "_FAIL_CLOSED",
        if truthy analysis then analysis else .obj []⟩ := by
    simp only [failureDecision, hclosed, bind, Except.bind, hfail, and_self, if_true]
    rfl
  have hobj : ∃ kvs, (if truthy analysis then analysis else .obj []) = .obj kvs := by
    rcases hkind with rfl | ⟨kvs, rfl⟩
    · exact ⟨[], rfl⟩
    · split
      · exact ⟨kvs, rfl⟩
      · exact ⟨[], rfl⟩
  obtain ⟨kvs, hkvs⟩ := hobj
  exact (denies_iff_requested (heval.trans hdecision) hkvs hmode).2 rfl

theorem judge_of_tellsError {result : Mapping F} (h : TellsError result) (path : Option PyStr) :
    ∃ reason, judge p w path (.obj result) = failureDecision p w path reason (.obj result) := by
  obtain ⟨text, htext, hlook⟩ := h
  refine ⟨py "ANALYSIS_" ++ upper text, ?_⟩
  simp [judge, getField, hlook, bind, Except.bind, Option.filter, truthy, htext, pyStr]

theorem judge_of_decision {result : Mapping F} {text : PyStr}
    (herror : lookup (py "error") result = none)
    (hdecision : lookup (py "decision") result = some (.str text)) (path : Option PyStr) :
    judge p w path (.obj result) =
      if upper text ∈ validDecisions then
        .ok ⟨upper text, py "EXPLAINABLE_STATIC_SCORING", .obj result⟩
      else failureDecision p w path (py "INVALID_ANALYZER_DECISION") (.obj result) := by
  simp only [judge, getField, herror, hdecision, bind, Except.bind, Option.filter, Option.map_some,
    Option.getD_some, pyStr]
  rfl

/-- The controller analyses a target that gets as far as the analyzer. -/
theorem evaluateEvent_of_submits (h : FailClosedTarget p w event) (hsub : Submits p w event) :
    evaluateEvent p (w.analysedBy b event) event =
      match b.analyzeOpenFdAsync event.filepath (deadline p event - w.submitClock) with
      | .error exc => .error exc
      | .ok result =>
          if deadline p event ≤ w.doneClock then
            failureDecision p (w.analysedBy b event) event.path (py "RESPONSE_DEADLINE_EXCEEDED")
              (.obj result)
          else judge p (w.analysedBy b event) event.path (.obj result) := by
  obtain ⟨hparse, hforeign, ⟨m, hm⟩, htime⟩ := hsub
  obtain ⟨hregular, hsize⟩ := h.regular m hm
  have hown : ownProcess p (w.analysedBy b event) event = .ok false := hforeign
  have hexcl : p.isExcludedPath ((w.analysedBy b event).cwd 0) event.path = .ok false :=
    h.notExcluded
  have hmon : p.shouldMonitor ((w.analysedBy b event).cwd 1) event.path = .ok true := h.monitored
  have hstat : (w.analysedBy b event).fstat = .ok m := hm
  have htime' : ¬ event.receivedMonotonic + p.maxResponseSeconds -
      (w.analysedBy b event).submitClock ≤ 0 := htime
  simp only [evaluateEvent, hparse, hown, hexcl, hmon, evaluateFile, hstat, hregular,
    Bool.true_eq_false, if_false, not_lt.2 hsize, htime']
  have hcall : (w.analysedBy b event).analysis
      (event.receivedMonotonic + p.maxResponseSeconds - (w.analysedBy b event).submitClock) =
      (b.analyzeOpenFdAsync event.filepath (deadline p event - w.submitClock)).map Json.obj := rfl
  rw [hcall]
  cases b.analyzeOpenFdAsync event.filepath (deadline p event - w.submitClock) <;> rfl

/-- An exception of the ancestry check ends the evaluation. -/
theorem not_denies_of_ancestry (hraises : AncestryRaises p w event) :
    ¬ Denies p (w.analysedBy b event) event := by
  obtain ⟨hparse, exc, hexc⟩ := hraises
  have hown : ownProcess p (w.analysedBy b event) event = .error exc := hexc
  have heval : evaluateEvent p (w.analysedBy b event) event = .error exc := by
    simp only [evaluateEvent, hparse, hown]
  exact not_denies_of_error heval

/-- Between the ancestry check and the analyzer, everything that goes wrong is a failure. -/
theorem evaluateEvent_of_not_submits (h : FailClosedTarget p w event)
    (hraises : ¬ AncestryRaises p w event) (hsub : ¬ Submits p w event) :
    ∃ reason, evaluateEvent p (w.analysedBy b event) event =
      failureDecision p (w.analysedBy b event) event.path reason .null := by
  have hexcl : p.isExcludedPath ((w.analysedBy b event).cwd 0) event.path = .ok false :=
    h.notExcluded
  have hmon : p.shouldMonitor ((w.analysedBy b event).cwd 1) event.path = .ok true := h.monitored
  cases hparse : event.parseError.filter (· ≠ []) with
  | some parseError =>
      refine ⟨parseError, ?_⟩
      simp only [evaluateEvent, hparse]
  | none =>
      have hforeign : ownProcess p w event = .ok false := by
        cases hcheck : ownProcess p w event with
        | error exc => exact absurd ⟨hparse, exc, hcheck⟩ hraises
        | ok own => rw [h.foreign own hcheck]
      have hown : ownProcess p (w.analysedBy b event) event = .ok false := hforeign
      cases hm : w.fstat with
      | error text =>
          refine ⟨py "EVENT_FSTAT_FAILED", ?_⟩
          have hstat : (w.analysedBy b event).fstat = .error text := hm
          simp only [evaluateEvent, hparse, hown, hexcl, hmon, evaluateFile, hstat]
      | ok m =>
          obtain ⟨hregular, hsize⟩ := h.regular m hm
          have hstat : (w.analysedBy b event).fstat = .ok m := hm
          have htime : event.receivedMonotonic + p.maxResponseSeconds -
              (w.analysedBy b event).submitClock ≤ 0 := by
            by_contra htime
            exact hsub ⟨hparse, hforeign, ⟨m, hm⟩, htime⟩
          refine ⟨py "RESPONSE_DEADLINE_EXCEEDED", ?_⟩
          simp only [evaluateEvent, hparse, hown, hexcl, hmon, evaluateFile, hstat, hregular,
            Bool.true_eq_false, if_false, not_lt.2 hsize, htime, if_true]

section Submitted

variable (h : FailClosedTarget p w event) (hsub : Submits p w event)

include h

theorem FailClosedTarget.denies_of_failure {reason : PyStr} {analysis : Json F}
    (hkind : analysis = .null ∨ ∃ kvs, analysis = .obj kvs)
    (heval : evaluateEvent p (w.analysedBy b event) event =
      failureDecision p (w.analysedBy b event) event.path reason analysis) :
    Denies p (w.analysedBy b event) event :=
  Fanotify.denies_of_failure h.closed h.failureMode h.finalMode hkind heval

include hsub

theorem not_denies_of_raised {exc : Exc}
    (hcall : b.analyzeOpenFdAsync event.filepath (deadline p event - w.submitClock) = .error exc) :
    ¬ Denies p (w.analysedBy b event) event := by
  have heval : evaluateEvent p (w.analysedBy b event) event = .error exc := by
    rw [evaluateEvent_of_submits h hsub, hcall]
  exact not_denies_of_error heval

variable {result : Mapping F}
  (hcall : b.analyzeOpenFdAsync event.filepath (deadline p event - w.submitClock) = .ok result)

include hcall

theorem denies_of_late (hlate : deadline p event ≤ w.doneClock) :
    Denies p (w.analysedBy b event) event := by
  have heval : evaluateEvent p (w.analysedBy b event) event =
      failureDecision p (w.analysedBy b event) event.path (py "RESPONSE_DEADLINE_EXCEEDED")
        (.obj result) := by
    rw [evaluateEvent_of_submits h hsub, hcall]
    exact if_pos hlate
  exact h.denies_of_failure (.inr ⟨result, rfl⟩) heval

theorem evaluateEvent_of_result (hlate : ¬ deadline p event ≤ w.doneClock) :
    evaluateEvent p (w.analysedBy b event) event =
      judge p (w.analysedBy b event) event.path (.obj result) := by
  rw [evaluateEvent_of_submits h hsub, hcall]
  exact if_neg hlate

theorem denies_of_tellsError (htells : TellsError result) :
    Denies p (w.analysedBy b event) event := by
  by_cases hlate : deadline p event ≤ w.doneClock
  · exact denies_of_late h hsub hcall hlate
  · obtain ⟨reason, hjudge⟩ : ∃ reason, judge p (w.analysedBy b event) event.path (.obj result) =
        failureDecision p (w.analysedBy b event) event.path reason (.obj result) :=
      judge_of_tellsError htells event.path
    exact h.denies_of_failure (.inr ⟨result, rfl⟩)
      ((evaluateEvent_of_result h hsub hcall hlate).trans hjudge)

/-- A result without an `error` key is judged by its decision. -/
theorem denies_iff_decision (hlate : ¬ deadline p event ≤ w.doneClock) {text : PyStr}
    (herror : lookup (py "error") result = none)
    (hdecision : lookup (py "decision") result = some (.str text)) :
    Denies p (w.analysedBy b event) event ↔
      (upper text ∈ validDecisions → upper text = py "DENY") := by
  have heval := evaluateEvent_of_result h hsub hcall hlate
  rw [judge_of_decision herror hdecision] at heval
  by_cases hvalid : upper text ∈ validDecisions
  · rw [if_pos hvalid] at heval
    rw [denies_iff_requested heval rfl h.finalMode]
    exact ⟨fun hreq _ => hreq, fun hreq => hreq hvalid⟩
  · rw [if_neg hvalid] at heval
    exact iff_of_true (h.denies_of_failure (.inr ⟨result, rfl⟩) heval)
      fun hmem => absurd hmem hvalid

/-- A scan that is done in time decides by its status. -/
theorem denies_iff_of_scan (hlate : ¬ deadline p event ≤ w.doneClock) (hends : JobEnds p w b event)
    (hjob : b.analyzeOpenFd = .ok result) :
    (¬ Completes p w b event → Denies p (w.analysedBy b event) event) ↔
      ¬ ∃ scored, Scored b .partialScan scored := by
  obtain ⟨status, scored, hscored, hresult⟩ := analyzeOpenFd_ok hjob
  have hother (hstatus : status ≠ .partialScan) : ¬ ∃ scored, Scored b .partialScan scored := by
    rintro ⟨scored', hscored'⟩
    exact hstatus (hscored.unique hscored').1
  cases status with
  | ok =>
      refine iff_of_true (fun hinc => ?_) (hother (by decide))
      rw [denies_iff_decision h hsub hcall hlate hresult.1 hresult.2]
      intro hvalid
      exact absurd ⟨hsub, hends, hlate, scored, hscored, hvalid⟩ hinc
  | error =>
      exact iff_of_true (fun _ => denies_of_tellsError h hsub hcall hresult) (hother (by decide))
  | partialScan =>
      refine iff_of_false ?_ fun hno => hno ⟨scored, hscored⟩
      intro hdenies
      have hinc : ¬ Completes p w b event := by
        rintro ⟨-, -, -, scored', hscored', -⟩
        exact absurd (hscored.unique hscored').1 (by decide)
      have hdeny := (denies_iff_decision h hsub hcall hlate hresult.1 hresult.2).1
        (hdenies hinc) (by decide)
      exact absurd hdeny (by decide)

omit hcall

/-- A job that the pool took is answered by how the wait for it ends. -/
theorem denies_iff_of_submit (hsubmit : b.submit = .ok ()) :
    (¬ Completes p w b event → Denies p (w.analysedBy b event) event) ↔
      ¬ (JobEnds p w b event ∧
        ((∃ exc, b.analyzeOpenFd = .error exc ∧ exc.isIn caughtByWait = false) ∨
          ¬ deadline p event ≤ w.doneClock ∧ ∃ scored, Scored b .partialScan scored)) := by
  have hasync : b.analyzeOpenFdAsync event.filepath (deadline p event - w.submitClock) =
      b.wait event.filepath (deadline p event - w.submitClock) := by
    simp only [Bench.analyzeOpenFdAsync, hsubmit]
  rcases wait_cases (b := b) event.filepath (deadline p event - w.submitClock) with
    ⟨result, hwait, htells, hwhy⟩ | ⟨hpos, hin, ⟨exc, hjob, hfree, hwait⟩ | ⟨result, hjob, hwait⟩⟩
  · -- the wait ends with a result of its own
    refine iff_of_true (fun _ => denies_of_tellsError h hsub (hasync.trans hwait) htells) ?_
    rintro ⟨⟨-, hends⟩, hend⟩
    rcases hwhy with hnot | ⟨exc, hjob, hcaught⟩
    · exact hnot hends
    · rcases hend with ⟨exc', hjob', hfree⟩ | ⟨-, scored, hscored⟩
      · rw [hjob] at hjob'
        cases hjob'
        rw [hcaught] at hfree
        cases hfree
      · obtain ⟨result', hjob'⟩ := hscored.analyzeOpenFd
        rw [hjob] at hjob'
        cases hjob'
  · -- the exception of the job gets through
    refine iff_of_false ?_ fun hno => hno ⟨⟨hsubmit, hpos, hin⟩, .inl ⟨exc, hjob, hfree⟩⟩
    intro hdenies
    refine not_denies_of_raised h hsub (hasync.trans hwait) (hdenies ?_)
    rintro ⟨-, -, -, scored, hscored, -⟩
    obtain ⟨result', hjob'⟩ := hscored.analyzeOpenFd
    rw [hjob] at hjob'
    cases hjob'
  · have hends : JobEnds p w b event := ⟨hsubmit, hpos, hin⟩
    have hnoExc : ¬ ∃ exc, b.analyzeOpenFd = .error exc ∧ exc.isIn caughtByWait = false := by
      rintro ⟨exc, hjob', -⟩
      rw [hjob] at hjob'
      cases hjob'
    rw [or_iff_right hnoExc, and_iff_right hends]
    by_cases hlate : deadline p event ≤ w.doneClock
    · exact iff_of_true (fun _ => denies_of_late h hsub (hasync.trans hwait) hlate)
        fun hend => hend.1 hlate
    · rw [and_iff_right hlate]
      exact denies_iff_of_scan h hsub (hasync.trans hwait) hlate hends hjob

/-- Where the pool does not take the job, its exception gets through. -/
theorem not_denies_of_submit {exc : Exc} (hsubmit : b.submit = .error exc) :
    ¬ (¬ Completes p w b event → Denies p (w.analysedBy b event) event) := by
  have hcall : b.analyzeOpenFdAsync event.filepath (deadline p event - w.submitClock) =
      .error exc := by
    simp only [Bench.analyzeOpenFdAsync, hsubmit]
  intro hdenies
  refine not_denies_of_raised h hsub hcall (hdenies ?_)
  rintro ⟨-, ⟨hok, -⟩, -⟩
  rw [hsubmit] at hok
  cases hok

end Submitted

/-- Under a fail-closed path, an analysis that does not complete is answered with `FAN_DENY` exactly
    when it does not escape: the ancestry check raises nothing, the pool takes the job, the exception it
    ends with, if any, is one that `_wait` catches, and the scan is not `PARTIAL`. -/
theorem fail_closed_iff (h : FailClosedTarget p w event) (b : Bench T F) :
    (¬ Completes p w b event → Denies p (w.analysedBy b event) event) ↔
      ¬ Escapes p w b event := by
  by_cases hraises : AncestryRaises p w event
  · refine iff_of_false (fun hdenies => not_denies_of_ancestry (b := b) hraises (hdenies ?_)) fun hno =>
      hno (.inl hraises)
    rintro ⟨⟨-, hown, -⟩, -⟩
    obtain ⟨-, exc, hexc⟩ := hraises
    rw [hown] at hexc
    cases hexc
  rw [Escapes, or_iff_right hraises]
  by_cases hsub : Submits p w event
  swap
  · obtain ⟨reason, heval⟩ := evaluateEvent_of_not_submits (b := b) h hraises hsub
    exact iff_of_true (fun _ => h.denies_of_failure (.inl rfl) heval) fun hesc => hsub hesc.1
  by_cases hsubmit : ∃ exc, b.submit = .error exc
  · refine iff_of_false ?_ fun hno => hno ⟨hsub, .inl hsubmit⟩
    obtain ⟨exc, hexc⟩ := hsubmit
    exact not_denies_of_submit h hsub hexc
  · have hok : b.submit = .ok () := by
      cases hcase : b.submit with
      | error exc => exact absurd ⟨exc, hcase⟩ hsubmit
      | ok u => rfl
    rw [and_iff_right hsub, or_iff_right hsubmit]
    exact denies_iff_of_submit h hsub hok

end Target

/-! ## Scans that fail -/

/-- A world whose kernel takes every response; the bench says what the analyzer does. -/
def closedWorld : World ℤ SampleFloat := denyingWorld (.ok responseSize)

def closedEvent : FanotifyEvent ℤ := { tmpEvent with path := some (py "/tmp/closed/x") }

def scanOf (status : ScanStatus) : StaticScanResult SampleFloat where
  status := status
  fileSize := .int 64
  mimeType := py "application/x-executable"
  isElf := true
  blockEntropies := []
  wholeFileEntropy := .null
  fileIdentity := []
  identitySource := py "OPEN_DESCRIPTOR"

def benignResult : ScoringResult SampleFloat where
  score := 0
  decision := py "ALLOW"
  indicators := []
  categoryScores := emptyScores
  rawCategoryScores := emptyScores
  labels := ⟨py "1.0", py "p", py "PROVISIONAL_NOT_CALIBRATED", [], []⟩
  scoringStatus := py "OK"
  notes := []

/-- An analyzer that takes the job and ends it in time. -/
def benchOf (scan : Except Exc (StaticScanResult SampleFloat)) : Bench ℤ SampleFloat where
  timeout := 2
  labels := benignResult.labels
  submit := .ok ()
  inTime _ := true
  future := .ok ()
  scan := scan
  score _ := .ok benignResult
  analyst _ := .ok .null
  seconds n := .int n

theorem closedEvent_target : FailClosedTarget tmpPolicy closedWorld closedEvent where
  failureMode := rfl
  finalMode := rfl
  known := ⟨py "/tmp/closed/x", rfl, by decide⟩
  closed := by decide
  foreign := by
    intro own hown
    have hforeign : ownProcess tmpPolicy closedWorld closedEvent = .ok false := by decide
    exact (Except.ok.inj (hforeign.symm.trans hown)).symm
  notExcluded := by decide
  monitored := by decide
  regular := by
    rintro m hm
    cases hm
    decide

/-- A scan that ends in an error is denied. -/
theorem scan_error_denied :
    FailClosedTarget tmpPolicy closedWorld closedEvent ∧
      Denies tmpPolicy (closedWorld.analysedBy (benchOf (.ok (scanOf .error))) closedEvent)
        closedEvent := by
  refine ⟨closedEvent_target,
    (fail_closed_iff closedEvent_target (benchOf (.ok (scanOf .error)))).2 ?_ ?_⟩
  · rintro (⟨-, exc, hexc⟩ | ⟨-, ⟨exc, hexc⟩ | ⟨-, ⟨exc, hexc, -⟩ |
      ⟨-, scored, -, scan, ai, hscan, hstatus, -⟩⟩⟩)
    · cases hexc
    · cases hexc
    · cases hexc
    · cases hscan
      cases hstatus
  · rintro ⟨-, -, -, scored, ⟨-, scan, ai, hscan, hstatus, -⟩, -⟩
    cases hscan
    cases hstatus

/-- A `PARTIAL` scan and a job that raises `KeyError` are answered with `FAN_ALLOW`. -/
theorem incomplete_scans_allowed :
    ¬ (¬ Completes tmpPolicy closedWorld (benchOf (.ok (scanOf .partialScan))) closedEvent →
        Denies tmpPolicy
          (closedWorld.analysedBy (benchOf (.ok (scanOf .partialScan))) closedEvent)
          closedEvent) ∧
      ¬ (¬ Completes tmpPolicy closedWorld (benchOf (.error ⟨.other (py "KeyError"), []⟩))
          closedEvent →
        Denies tmpPolicy
          (closedWorld.analysedBy (benchOf (.error ⟨.other (py "KeyError"), []⟩)) closedEvent)
          closedEvent) := by
  constructor
  · intro hdenies
    obtain ⟨r, hr, hvalue⟩ := hdenies (by
      rintro ⟨-, -, -, scored, ⟨-, scan, ai, hscan, hstatus, -⟩, -⟩
      cases hscan
      cases hstatus)
    cases hr
    exact absurd hvalue (by decide)
  · intro hdenies
    obtain ⟨r, hr, hvalue⟩ := hdenies (by
      rintro ⟨-, -, -, scored, ⟨-, scan, ai, hscan, -⟩, -⟩
      cases hscan)
    cases hr
    exact absurd hvalue (by decide)

end Elyra.Fanotify
