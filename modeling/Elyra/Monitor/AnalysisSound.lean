import Elyra.Monitor.Analysis

set_option autoImplicit false

/-! # What carries a risk score

Only a complete analysis does: one whose file was the same before and after the scan, whose scan has no
errors and has read all of it, and whose scoring is `OK`. -/

namespace Elyra.Monitor.Analysis

open Elyra.Python

variable {F : Type} [OrderedFloat F]

/-! ## Results -/

/-- A result that says nothing about the file. -/
structure Inconclusive (r : WindowsAnalysisResult F) : Prop where
  riskScore : r.riskScore = .null
  assessment : r.assessment = py "INCONCLUSIVE"
  recommendedDecision : r.recommendedDecision = py "INCONCLUSIVE"
  score : lookup (py "score") r.preExecutionScoring = some .null

theorem lookup_status (scored : Analyzer.ScoringResult F) :
    lookup (py "scoring_status") scored.toDict = some (.str scored.scoringStatus) := by
  rfl

theorem lookup_score (scored : Analyzer.ScoringResult F) :
    lookup (py "score") scored.toDict = some (.int scored.score) := by
  rfl

theorem isComplete_toDict (status : Status) (scored : Analyzer.ScoringResult F) :
    isComplete status scored.toDict =
      decide (status = .analyzed ∧ scored.scoringStatus = py "OK") := by
  rw [isComplete, lookup_status]

omit [OrderedFloat F] in
theorem isComplete_of_ne {status : Status} (h : status ≠ .analyzed) (scoring : Mapping F) :
    isComplete status scoring = false := by
  unfold isComplete
  split
  · simp [h]
  · rfl

omit [OrderedFloat F] in
/-- The update of an incomplete scoring is not undone by the one after it. -/
theorem lookup_embedded (assessment decision : PyStr) (scoring : Mapping F) :
    lookup (py "score") (embedded false assessment decision scoring) = some .null := by
  have ne (k : String) (h : py "score" ≠ py k) (v : Json F) (d : Mapping F) :
      lookup (py "score") (assign (py k) v d) = lookup (py "score") d := by
    rw [lookup_assign, if_neg h]
  simp only [embedded, update, List.foldl_cons, List.foldl_nil, Bool.false_eq_true, if_false]
  rw [ne _ (by decide), ne _ (by decide), ne _ (by decide), ne _ (by decide), ne _ (by decide),
    ne _ (by decide), ne _ (by decide), ne _ (by decide), lookup_assign, if_pos rfl]

theorem result_inconclusive {status : Status} (h : status ≠ .analyzed) (path : PyStr) (attempts : Nat)
    (volume : PyStr) (reason : Option PyStr) (scan : Option (Scan F))
    (scored : Option (Analyzer.ScoringResult F)) :
    Inconclusive (result path status attempts volume reason scan scored) := by
  have hcomplete := isComplete_of_ne h (((scored.map Analyzer.ScoringResult.toDict).getD []) : Mapping F)
  constructor
  · simp only [result, hcomplete, Bool.false_eq_true, if_false]
  · simp only [result, hcomplete, Bool.false_eq_true, if_false]
  · simp only [result, hcomplete, Bool.false_eq_true, if_false]
  · simp only [result, hcomplete, Bool.false_eq_true, if_false]
    exact lookup_embedded _ _ _

theorem result_riskScore {scored : Analyzer.ScoringResult F} (h : scored.scoringStatus = py "OK")
    (path : PyStr) (attempts : Nat) (volume : PyStr) (reason : Option PyStr) (scan : Option (Scan F)) :
    (result path .analyzed attempts volume reason scan (some scored)).riskScore = .int scored.score := by
  have hcomplete : isComplete .analyzed scored.toDict = true := by
    rw [isComplete_toDict]
    simp [h]
  simp only [result, Option.map_some, Option.getD_some, hcomplete, if_true, lookup_score]

/-! ## An attempt -/

/-- What a risk score is told of. -/
structure Measurement (a : Attempt F) (scan : Scan F) (scored : Analyzer.ScoringResult F) : Prop where
  scans : a.scan = .ok scan
  scores : a.score scan = .ok scored
  /-- Nothing of the file's metadata has changed, and the scan has read all that there is. -/
  unchanged : ∃ before after, checkComponents a.before = .ok before ∧
    checkComponents a.after = .ok after ∧ before.identity = after.identity ∧
    covers scan after.size = true
  status : scan.status = .ok
  errors : scan.errors = []
  scoringStatus : scored.scoringStatus = py "OK"

/-- An exception after which there is another attempt. -/
def Raised.isRetried : Raised → Bool
  | .fileAccessError _ => true
  | .osError _ _ => true
  | _ => false

/-- An operation that fails in a way that is worth another attempt. -/
def Retried {α : Type} (x : Except Raised α) : Prop :=
  ∃ e, x = .error e ∧ e.isRetried = true

/-- The file can be scanned: it is a regular file and not too large. -/
structure Ready (h : Host) (c : Settings F) (a : Attempt F) (before : Metadata) : Prop where
  enter : a.enter = .ok ()
  looked : checkComponents a.before = .ok before
  regular : before.isRegular = true
  size : before.size ≤ c.maxFileBytes
  resolver : ∃ volume, volumeOf h a.resolver = .ok volume

/-- The file cannot be opened, looked at, read or scored, or it changes while it is scanned, in a way that is
    worth another attempt. -/
inductive Interrupted (h : Host) (c : Settings F) (a : Attempt F) : Prop where
  | enter (hfail : Retried a.enter)
  | before (henter : a.enter = .ok ()) (hfail : Retried (checkComponents a.before))
  | scan {before : Metadata} (hready : Ready h c a before) (hfail : Retried a.scan)
  | after {before : Metadata} {scan : Scan F} (hready : Ready h c a before) (hscan : a.scan = .ok scan)
      (hfail : Retried (checkComponents a.after))
  | changed {before after : Metadata} {scan : Scan F} (hready : Ready h c a before)
      (hscan : a.scan = .ok scan) (hafter : checkComponents a.after = .ok after)
      (hchanged : before.identity ≠ after.identity)
  | score {before after : Metadata} {scan : Scan F} (hready : Ready h c a before)
      (hscan : a.scan = .ok scan) (hafter : checkComponents a.after = .ok after)
      (hsame : before.identity = after.identity) (hfail : Retried (a.score scan))
  | unread {before after : Metadata} {scan : Scan F} {scored : Analyzer.ScoringResult F}
      (hready : Ready h c a before) (hscan : a.scan = .ok scan)
      (hafter : checkComponents a.after = .ok after) (hsame : before.identity = after.identity)
      (hscored : a.score scan = .ok scored) (hcodes : ∃ code ∈ codes "" scan.errors, code ∈ unreadCodes)

omit [OrderedFloat F] in
theorem outcome_after {α : Type} {x : Except Raised α} {kept : Kept F} {exc : Raised → Kept F → Prop}
    (hexc : ∀ e, x = .error e → exc e kept) :
    After (outcome x) kept (fun a kept' => x = .ok a ∧ kept' = kept) exc := by
  cases x with
  | ok a => exact After.pure ⟨rfl, rfl⟩
  | error e => exact After.throw (hexc e rfl)

omit [OrderedFloat F] in
theorem modify_after {f : Kept F → Kept F} {kept : Kept F} {exc : Raised → Kept F → Prop} :
    After (modify f : Attempted F Unit) kept (fun _ kept' => kept' = f kept) exc := After.update rfl

omit [OrderedFloat F] in
theorem raiseIf_after {bad : Prop} [Decidable bad] {e : Raised} {kept : Kept F}
    {exc : Raised → Kept F → Prop} (hexc : bad → exc e kept) :
    After (raiseIf bad e) kept (fun _ kept' => ¬ bad ∧ kept' = kept) exc := by
  unfold raiseIf
  split
  next hbad => exact After.throw (hexc hbad)
  next hbad => exact After.pure ⟨hbad, rfl⟩

omit [OrderedFloat F] in
theorem inaccessibleIf_after {bad : Prop} [Decidable bad] {reason : String} {kept : Kept F}
    {exc : Raised → Kept F → Prop}
    (hexc : bad → exc (.fileAccessError (py reason)) { kept with lastReason := py reason }) :
    After (inaccessibleIf bad reason) kept (fun _ kept' => ¬ bad ∧ kept' = kept) exc := by
  unfold inaccessibleIf
  split
  next hbad =>
    refine modify_after.bind fun _ kept' hkept => ?_
    rw [hkept]
    exact After.throw (hexc hbad)
  next hbad => exact After.pure ⟨hbad, rfl⟩

theorem completeOf_true {scan : Scan F} {size : Int} {scored : Analyzer.ScoringResult F}
    (h : completeOf scan size scored = .ok true) :
    scan.status = .ok ∧ scan.errors = [] ∧ covers scan size = true ∧
      scored.scoringStatus = py "OK" := by
  unfold completeOf at h
  split at h
  next hall =>
    cases hpe : peStatusComplete scan with
    | error e =>
        rw [hpe] at h
        cases h
    | ok pe =>
        rw [hpe] at h
        have hok := Except.ok.inj h
        simp only [Bool.and_eq_true, decide_eq_true_eq] at hok
        exact ⟨hall.1, hall.2.1, hall.2.2.1, hok.2⟩
  next => cases h

/-- The one thing that can be wrong with it is a PE status that has no hash. -/
theorem completeOf_error {scan : Scan F} {size : Int} {scored : Analyzer.ScoringResult F} {e : Raised}
    (h : completeOf scan size scored = .error e) : e = .other (py "TypeError") := by
  unfold completeOf at h
  split at h
  · cases hpe : peStatusComplete scan with
    | ok pe =>
        rw [hpe] at h
        cases h
    | error e' =>
        rw [hpe] at h
        cases Except.error.inj h
        unfold peStatusComplete at hpe
        split at hpe <;> cases hpe <;> rfl
  · cases h

/-! ### What an attempt returns, and what it raises -/

theorem lookBefore_after (h : Host) (c : Settings F) (a : Attempt F) (kept : Kept F) :
    After (lookBefore h c a) kept (fun before _ => Ready h c a before)
      (fun e _ => e.isRetried = true → Interrupted h c a) := by
  unfold lookBefore
  refine (outcome_after fun e he hr => .enter ⟨e, he, hr⟩).bind fun _ kept ⟨henter, _⟩ => ?_
  refine (outcome_after fun e he hr => .before henter ⟨e, he, hr⟩).bind fun before kept ⟨hbefore, _⟩ => ?_
  refine (raiseIf_after fun _ hr => by cases hr).bind fun _ kept ⟨hregular, _⟩ => ?_
  refine (raiseIf_after fun _ hr => by cases hr).bind fun _ kept ⟨hsize, _⟩ => ?_
  refine (outcome_after fun e he hr => ?_).bind fun volume kept ⟨hvolume, _⟩ => ?_
  · -- what the resolver raises is swallowed, unless it is of a class that is not tried again
    unfold volumeOf at he
    split at he
    · cases he
    · split at he
      · cases he
      next hunresolved =>
        cases Except.error.inj he
        cases e <;> simp [Raised.isRetried, Raised.isUnresolved] at hr hunresolved
  · refine modify_after.bind fun _ kept _ => ?_
    exact After.pure ⟨henter, hbefore, by simpa using hregular, by omega, volume, hvolume⟩

theorem measure_after (h : Host) {c : Settings F} {a : Attempt F} {before : Metadata}
    (hready : Ready h c a before) (kept : Kept F) :
    After (measure c a before) kept (fun m _ => m.complete = true → Measurement a m.scan m.scored)
      (fun e _ => e.isRetried = true → Interrupted h c a) := by
  unfold measure
  refine (outcome_after fun e he hr => .scan hready ⟨e, he, hr⟩).bind fun scan kept ⟨hscan, _⟩ => ?_
  refine modify_after.bind fun _ kept _ => ?_
  refine (outcome_after fun e he hr => .after hready hscan ⟨e, he, hr⟩).bind
    fun after kept ⟨hafter, _⟩ => ?_
  refine (inaccessibleIf_after fun hne _ => .changed hready hscan hafter hne).bind
    fun _ kept ⟨hsame, _⟩ => ?_
  have hsame := not_not.1 hsame
  refine (raiseIf_after fun _ hr => by cases hr).bind fun _ kept _ => ?_
  refine (outcome_after fun e he hr => .score hready hscan hafter hsame ⟨e, he, hr⟩).bind
    fun scored kept ⟨hscored, _⟩ => ?_
  refine (inaccessibleIf_after fun hcodes _ =>
    .unread hready hscan hafter hsame hscored hcodes).bind fun _ kept _ => ?_
  refine (outcome_after fun e he hr => ?_).bind fun complete kept ⟨hcomplete, _⟩ => ?_
  · rcases completeOf_error he with rfl
    cases hr
  · refine After.pure fun htrue => ?_
    have hcomplete : completeOf scan after.size scored = .ok true := by
      rw [hcomplete]
      exact congrArg _ htrue
    obtain ⟨hstatus, herrors, hcovers, hscoring⟩ := completeOf_true hcomplete
    exact ⟨hscan, hscored, ⟨before, after, hready.looked, hafter, hsame, hcovers⟩, hstatus, herrors,
      hscoring⟩

theorem attemptOnce_after (h : Host) (c : Settings F) (a : Attempt F) (kept : Kept F) :
    After (attemptOnce h c a) kept (fun m _ => m.complete = true → Measurement a m.scan m.scored)
      (fun e _ => e.isRetried = true → Interrupted h c a) :=
  (lookBefore_after h c a kept).bind fun _ kept hready => measure_after h hready kept

/-! ### What interrupts an attempt -/

section run

variable {α β : Type} {kept : Kept F} {f : β → Attempted F α}

omit [OrderedFloat F] in
@[simp] theorem outcome_ok_bind (b : β) : (outcome (.ok b) >>= f) kept = f b kept := rfl

omit [OrderedFloat F] in
@[simp] theorem outcome_error_bind (e : Raised) : (outcome (.error e) >>= f) kept = .error e kept := rfl

omit [OrderedFloat F] in
@[simp] theorem modify_bind {f : Unit → Attempted F α} (g : Kept F → Kept F) :
    ((modify g : Attempted F Unit) >>= f) kept = f () (g kept) := rfl

omit [OrderedFloat F] in
theorem raiseIf_bind {bad : Prop} [Decidable bad] (h : ¬ bad) (e : Raised) {f : Unit → Attempted F α} :
    (raiseIf bad e >>= f) kept = f () kept := by
  rw [raiseIf, if_neg h]
  rfl

omit [OrderedFloat F] in
theorem inaccessibleIf_bind {bad : Prop} [Decidable bad] (h : ¬ bad) (reason : String)
    {f : Unit → Attempted F α} : (inaccessibleIf bad reason >>= f) kept = f () kept := by
  rw [inaccessibleIf, if_neg h]
  rfl

omit [OrderedFloat F] in
theorem inaccessibleIf_bind_raises {bad : Prop} [Decidable bad] (h : bad) (reason : String)
    {f : Unit → Attempted F α} : (inaccessibleIf bad reason >>= f) kept =
      .error (.fileAccessError (py reason)) { kept with lastReason := py reason } := by
  rw [inaccessibleIf, if_pos h]
  rfl

end run

/-- `x` raises an exception after which there is another attempt. -/
def Interrupts {α : Type} (x : EStateM.Result Raised (Kept F) α) : Prop :=
  ∃ e kept, x = .error e kept ∧ e.isRetried = true

omit [OrderedFloat F] in
theorem Retried.interrupts {α β : Type} {x : Except Raised β} (h : Retried x) (f : β → Attempted F α)
    (kept : Kept F) : Interrupts ((outcome x >>= f) kept) := by
  obtain ⟨e, rfl, he⟩ := h
  exact ⟨e, kept, rfl, he⟩

theorem attemptOnce_of_ready {h : Host} {c : Settings F} {a : Attempt F} {before : Metadata}
    (hready : Ready h c a before) (kept : Kept F) :
    ∃ volume, attemptOnce h c a kept = measure c a before { kept with volume := volume } := by
  obtain ⟨volume, hvolume⟩ := hready.resolver
  refine ⟨volume, ?_⟩
  have hlook : lookBefore h c a kept = .ok before { kept with volume := volume } := by
    rw [lookBefore, hready.enter, outcome_ok_bind, hready.looked, outcome_ok_bind,
      raiseIf_bind (by simp [hready.regular]), raiseIf_bind (by have := hready.size; omega), hvolume,
      outcome_ok_bind, modify_bind]
    rfl
  rw [attemptOnce]
  simp only [Bind.bind, EStateM.bind, hlook]

omit [OrderedFloat F] in
/-- The second look at the size is at a file that has not changed. -/
theorem size_after {h : Host} {c : Settings F} {a : Attempt F} {before after : Metadata}
    (hready : Ready h c a before) (hsame : before.identity = after.identity) :
    ¬ c.maxFileBytes < after.size := by
  have hsize : before.size = after.size := congrArg (fun i => i.2.2.1) hsame
  have := hready.size
  omega

theorem Interrupted.interrupts {h : Host} {c : Settings F} {a : Attempt F} (hi : Interrupted h c a)
    (kept : Kept F) : Interrupts (attemptOnce h c a kept) := by
  have before_scan (hlook : Interrupts (lookBefore h c a kept)) : Interrupts (attemptOnce h c a kept) := by
    obtain ⟨e, kept', hlook, he⟩ := hlook
    refine ⟨e, kept', ?_, he⟩
    rw [attemptOnce]
    simp only [Bind.bind, EStateM.bind, hlook]
  cases hi with
  | enter hfail => exact before_scan (hfail.interrupts _ _)
  | before henter hfail =>
      apply before_scan
      rw [lookBefore, henter, outcome_ok_bind]
      exact hfail.interrupts _ _
  | scan hready hfail =>
      obtain ⟨volume, hrun⟩ := attemptOnce_of_ready hready kept
      rw [hrun, measure]
      exact hfail.interrupts _ _
  | after hready hscan hfail =>
      obtain ⟨volume, hrun⟩ := attemptOnce_of_ready hready kept
      rw [hrun, measure, hscan, outcome_ok_bind, modify_bind]
      exact hfail.interrupts _ _
  | changed hready hscan hafter hchanged =>
      obtain ⟨volume, hrun⟩ := attemptOnce_of_ready hready kept
      rw [hrun, measure, hscan, outcome_ok_bind, modify_bind, hafter, outcome_ok_bind,
        inaccessibleIf_bind_raises hchanged]
      exact ⟨_, _, rfl, rfl⟩
  | score hready hscan hafter hsame hfail =>
      obtain ⟨volume, hrun⟩ := attemptOnce_of_ready hready kept
      rw [hrun, measure, hscan, outcome_ok_bind, modify_bind, hafter, outcome_ok_bind,
        inaccessibleIf_bind (not_not.2 hsame), raiseIf_bind (size_after hready hsame)]
      exact hfail.interrupts _ _
  | unread hready hscan hafter hsame hscored hcodes =>
      obtain ⟨volume, hrun⟩ := attemptOnce_of_ready hready kept
      rw [hrun, measure, hscan, outcome_ok_bind, modify_bind, hafter, outcome_ok_bind,
        inaccessibleIf_bind (not_not.2 hsame), raiseIf_bind (size_after hready hsame), hscored,
        outcome_ok_bind, inaccessibleIf_bind_raises hcodes]
      exact ⟨_, _, rfl, rfl⟩

/-- What an attempt comes to: something measured, or an exception, which is worth another attempt exactly if
    the attempt is interrupted. -/
theorem attemptOnce_cases (h : Host) (c : Settings F) (a : Attempt F) (kept : Kept F) :
    (∃ m kept', attemptOnce h c a kept = .ok m kept' ∧ ¬ Interrupted h c a ∧
      (m.complete = true → Measurement a m.scan m.scored)) ∨
    ∃ e kept', attemptOnce h c a kept = .error e kept' ∧ (e.isRetried = true ↔ Interrupted h c a) := by
  have hafter := attemptOnce_after h c a kept
  have hback := fun hi : Interrupted h c a => hi.interrupts kept
  unfold After at hafter
  cases hrun : attemptOnce h c a kept with
  | ok m kept' =>
      rw [hrun] at hafter hback
      refine .inl ⟨m, kept', rfl, fun hi => ?_, hafter⟩
      obtain ⟨e, kept, herr, -⟩ := hback hi
      cases herr
  | error e kept' =>
      rw [hrun] at hafter hback
      refine .inr ⟨e, kept', rfl, hafter, fun hi => ?_⟩
      obtain ⟨e', kept, herr, he⟩ := hback hi
      cases herr
      exact he

/-! ## Runs -/

/-- What the result of an analysis has to be, where the attempts are these. -/
structure Sound (c : Settings F) (env : Nat → Attempt F) (r : WindowsAnalysisResult F) : Prop where
  attempts : (r.attempts : Int) ≤ c.retryAttempts + 1
  riskScore : r.riskScore ≠ .null ↔ r.status = .analyzed
  analyzed : r.status = .analyzed →
    ∃ scan scored, Measurement (env r.attempts) scan scored ∧ r.riskScore = .int scored.score
  inconclusive : r.status ≠ .analyzed → Inconclusive r

theorem sound_of_inconclusive {c : Settings F} {env : Nat → Attempt F} {status : Status}
    (h : status ≠ .analyzed) {attempts : Nat} (hattempts : (attempts : Int) ≤ c.retryAttempts + 1)
    (path volume : PyStr) (reason : Option PyStr) (scan : Option (Scan F))
    (scored : Option (Analyzer.ScoringResult F)) :
    Sound c env (result path status attempts volume reason scan scored) := by
  have hinc := result_inconclusive h path attempts volume reason scan scored
  exact ⟨hattempts, ⟨fun hrisk => (hrisk hinc.riskScore).elim, fun hst => (h hst).elim⟩,
    fun hst => (h hst).elim, fun _ => hinc⟩

theorem handled_again {e : Raised} (h : e.isRetried = true) (label : PyStr) (attempt : Nat) (kept : Kept F) :
    ∃ lastReason, handled label attempt kept e = .again lastReason := by
  cases e with
  | fileAccessError text => exact ⟨_, rfl⟩
  | osError name text => exact ⟨_, rfl⟩
  | _ => cases h

theorem handled_done {e : Raised} (h : e.isRetried = false) (label : PyStr) (attempt : Nat) (kept : Kept F) :
    ∃ (status : Status) (reason : Option PyStr), status ≠ .analyzed ∧ handled label attempt kept e =
      .done (result label status attempt kept.volume reason kept.lastScan none) := by
  cases e with
  | scanPolicyError skip reason => exact ⟨skip.status, some reason, by cases skip <;> decide, rfl⟩
  | fileNotFoundError => exact ⟨.skippedNotFound, _, by decide, rfl⟩
  | unsupportedFileTypeError text => exact ⟨.skippedUnsupportedFileType, _, by decide, rfl⟩
  | runtimeError name => exact ⟨.error, _, by decide, rfl⟩
  | valueError name => exact ⟨.error, _, by decide, rfl⟩
  | other name => exact ⟨.error, _, by decide, rfl⟩
  | fileAccessError text => cases h
  | osError name text => cases h

/-- The result of an attempt that raises nothing. -/
theorem sound_measured {c : Settings F} {env : Nat → Attempt F} {attempt : Nat} {m : Measured F}
    (hm : m.complete = true → Measurement (env attempt) m.scan m.scored)
    (hattempts : (attempt : Int) ≤ c.retryAttempts + 1) (path volume : PyStr) :
    Sound c env (result path (if m.complete then .analyzed else .partialScan) attempt volume
      (if m.complete then none else some (py "STATIC_ANALYSIS_INCOMPLETE")) (some m.scan)
      (some m.scored)) := by
  cases hc : m.complete with
  | false => exact sound_of_inconclusive (by decide) hattempts _ _ _ _ _
  | true =>
      have hmeasured := hm hc
      have hrisk := result_riskScore hmeasured.scoringStatus path attempt volume none (some m.scan)
      refine ⟨hattempts, ⟨fun _ => rfl, fun _ hnull => ?_⟩,
        fun _ => ⟨m.scan, m.scored, hmeasured, hrisk⟩, fun hst => (hst rfl).elim⟩
      cases hrisk.symm.trans hnull

section attempts

variable (h : Host) {c : Settings F} (env : Nat → Attempt F) (label : PyStr) {attempt : Nat}

/-- The last attempt, which is not followed by a pause. -/
theorem attemptsFrom_zero (hattempt : (attempt : Int) ≤ c.retryAttempts + 1) (kept : Kept F) :
    ∃ r, attemptsFrom h c env label 0 attempt kept = .ok r ∧ Sound c env r := by
  obtain ⟨m, kept', hrun, -, hm⟩ | ⟨e, kept', hrun, -⟩ := attemptOnce_cases h c (env attempt) kept
  · rw [attemptsFrom, hrun]
    exact ⟨_, rfl, sound_measured hm hattempt _ _⟩
  · cases he : e.isRetried with
    | true =>
        obtain ⟨lastReason, hhandled⟩ := handled_again he label attempt kept'
        rw [attemptsFrom, hrun]
        simp only [hhandled]
        exact ⟨_, rfl, sound_of_inconclusive (by decide) hattempt _ _ _ _ _⟩
    | false =>
        obtain ⟨status, reason, hstatus, hhandled⟩ := handled_done he label attempt kept'
        rw [attemptsFrom, hrun]
        simp only [hhandled]
        exact ⟨_, rfl, sound_of_inconclusive hstatus hattempt _ _ _ _ _⟩

/-- An attempt with others left: it is the last one unless it is interrupted. -/
theorem attemptsFrom_succ (hattempt : (attempt : Int) ≤ c.retryAttempts + 1) (left : Nat) (kept : Kept F) :
    (¬ Interrupted h c (env attempt) ∧
      ∃ r, attemptsFrom h c env label (left + 1) attempt kept = .ok r ∧ Sound c env r) ∨
    (Interrupted h c (env attempt) ∧ ∃ kept',
      attemptsFrom h c env label (left + 1) attempt kept = (do
        if !FloatNum.isZero c.retryDelaySeconds then c.sleeper c.retryDelaySeconds
        attemptsFrom h c env label left (attempt + 1) kept')) := by
  obtain ⟨m, kept', hrun, hnot, hm⟩ | ⟨e, kept', hrun, he⟩ := attemptOnce_cases h c (env attempt) kept
  · left
    rw [attemptsFrom, hrun]
    exact ⟨hnot, _, rfl, sound_measured hm hattempt _ _⟩
  · cases hr : e.isRetried with
    | true =>
        right
        obtain ⟨lastReason, hhandled⟩ := handled_again hr label attempt kept'
        rw [attemptsFrom, hrun]
        simp only [hhandled]
        exact ⟨he.1 hr, _, rfl⟩
    | false =>
        left
        obtain ⟨status, reason, hstatus, hhandled⟩ := handled_done hr label attempt kept'
        rw [attemptsFrom, hrun]
        simp only [hhandled]
        refine ⟨fun hi => ?_, _, rfl, sound_of_inconclusive hstatus hattempt _ _ _ _ _⟩
        cases hr.symm.trans (he.2 hi)

/-- A pause that the sleeper takes, or that is none. -/
theorem pause_ok (hpause : FloatNum.isZero c.retryDelaySeconds = false →
      c.sleeper c.retryDelaySeconds = .ok ()) {α : Type} (next : Except Raised α) :
    (do
      if !FloatNum.isZero c.retryDelaySeconds then c.sleeper c.retryDelaySeconds
      next) = next := by
  cases hzero : FloatNum.isZero c.retryDelaySeconds with
  | true => rfl
  | false =>
      rw [hpause hzero]
      rfl

/-- With such a pause, the attempts that are left come to an end: the induction is on their number. -/
theorem attemptsFrom_sound (hpause : FloatNum.isZero c.retryDelaySeconds = false →
      c.sleeper c.retryDelaySeconds = .ok ()) (left : Nat) (kept : Kept F)
    (hattempt : (attempt : Int) + left ≤ c.retryAttempts + 1) :
    ∃ r, attemptsFrom h c env label left attempt kept = .ok r ∧ Sound c env r := by
  induction left generalizing attempt kept with
  | zero => exact attemptsFrom_zero h env label (by omega) kept
  | succ left ih =>
      obtain ⟨-, hsound⟩ | ⟨-, kept', hnext⟩ := attemptsFrom_succ h env label
        (by omega : (attempt : Int) ≤ c.retryAttempts + 1) left kept
      · exact hsound
      · rw [hnext, pause_ok hpause]
        exact ih kept' (by omega)

/-- All the attempts: they come to an end with a sound result, unless the first one is interrupted and the
    pause after it is one that the sleeper does not take. -/
theorem attemptsFrom_sound_iff (hretry : 0 ≤ c.retryAttempts) :
    (∃ r, attemptsFrom h c env label c.retryAttempts.toNat 1 {} = .ok r ∧ Sound c env r) ↔
      (Interrupted h c (env 1) → 0 < c.retryAttempts → FloatNum.isZero c.retryDelaySeconds = false →
        c.sleeper c.retryDelaySeconds = .ok ()) := by
  have hone : ((1 : Nat) : Int) ≤ c.retryAttempts + 1 := by omega
  cases hleft : c.retryAttempts.toNat with
  | zero => exact iff_of_true (attemptsFrom_zero h env label hone {}) fun _ hpos => by omega
  | succ left =>
      obtain ⟨hnot, hsound⟩ | ⟨hi, kept, hnext⟩ :=
        attemptsFrom_succ h env label hone left {}
      · exact iff_of_true hsound fun hi => (hnot hi).elim
      · rw [hnext]
        constructor
        · intro hsound _ _ hzero
          obtain ⟨r, hr, -⟩ := hsound
          rw [hzero] at hr
          cases hsleep : c.sleeper c.retryDelaySeconds with
          | ok u => rfl
          | error e =>
              rw [hsleep] at hr
              cases hr
        · intro hpause
          have hpause := hpause hi (by omega)
          rw [pause_ok hpause]
          exact attemptsFrom_sound h env label hpause left kept (by omega)

end attempts

/-! ## `analyze` -/

/-- The path has an absolute form, if that is asked for, and the pause after a first attempt that is
    interrupted is one that the sleeper takes, if there is one. -/
structure Waits (h : Host) (c : Settings F) (env : Nat → Attempt F) (filepath : PyStr) : Prop where
  absolute : ∀ e, localPathRejection h filepath ≠ .error e
  pause : localPathRejection h filepath = .ok none → Interrupted h c (env 1) → 0 < c.retryAttempts →
    FloatNum.isZero c.retryDelaySeconds = false → c.sleeper c.retryDelaySeconds = .ok ()

/-- `os.path.abspath` has answered before. -/
theorem abspath_of_accepted {h : Host} {filepath : PyStr} (hpath : localPathRejection h filepath = .ok none) :
    ∃ path, h.abspath filepath = .ok path := by
  unfold localPathRejection at hpath
  split at hpath
  · cases hpath
  · cases habs : h.abspath filepath with
    | ok path => exact ⟨path, rfl⟩
    | error e =>
        rw [habs] at hpath
        cases hpath

section sample

private def sampleHost : Host where
  windows := true
  abspath p := .ok p
  splitdrive p := (p.take 2, p.drop 2)
  volumeIsLocal _ := true
  upper p := p

/-- `time.sleep` -/
private def timeSleep : SampleFloat → Except Raised Unit
  | .zero => .ok ()
  | .inf => .error (.other (py "OverflowError"))
  | .nan => .error (.valueError (py "ValueError"))
  | .negInf => .error (.valueError (py "ValueError"))

private def sampleSettings (delay : SampleFloat) : Settings SampleFloat where
  maxFileBytes := 134217728
  retryAttempts := 2
  retryDelaySeconds := delay
  sleeper := timeSleep

/-- Another program has the file open for writing. -/
private def locked : Attempt SampleFloat where
  enter := .error (.osError (py "PermissionError") (py "[WinError 32]"))
  before := ⟨[], .error .fileNotFoundError⟩
  resolver := .ok (py "NTFS")
  scan := .error (.fileAccessError (py "locked"))
  after := ⟨[], .error .fileNotFoundError⟩
  score _ := .error (.other (py "TypeError"))

end sample

end Elyra.Monitor.Analysis
