import Elyra.Fanotify.FailClosed

set_option autoImplicit false
set_option linter.unusedSectionVars false

/-! # The reader loop

The events `_event_loop` answers itself: the overflow of the kernel's queue, and a permission event
for which no slot is free. Both end, as `_handle_event` does, with `_emit_record`.

`EmitsOne` says what such a statement leaves: one record was emitted, the correlation engine can
read it, and it was queued unless the audit logger raised what `_emit_record` does not catch. -/

namespace Elyra.Fanotify

open Elyra.Python Elyra.Correlation Elyra.Analyzer

variable {T F : Type}

/-- `FAN_Q_OVERFLOW`. -/
def fanQOverflow : Nat := 0x00004000

/-- `is_overflow`. -/
def FanotifyEvent.isOverflow (event : FanotifyEvent T) : Bool := event.mask &&& fanQOverflow != 0

/-- The items `_record_overflow` writes. -/
def overflowItems : Mapping F :=
  [(py "requested_decision", .str (py "UNKNOWN")), (py "final_action", .str (py "DEGRADED")),
    (py "kernel_response", .str (py "NONE")), (py "reason", .str (py "FANOTIFY_QUEUE_OVERFLOW")),
    (py "response_ok", .bool true)]

/-- The items `_respond_saturated` writes. -/
def saturatedItems (sent : Bool) : Mapping F :=
  [(py "requested_decision", .str (py "ALLOW_MONITOR")), (py "final_action", .str (py "ALLOW")),
    (py "kernel_response", .str (py "FAN_ALLOW")),
    (py "reason", .str (py "EVENT_QUEUE_SATURATED_FAIL_OPEN")), (py "response_ok", .bool sent)]

/-- `_record_overflow`. -/
def recordOverflow (w : World T F) (event : FanotifyEvent T) : Py (Frame F) Unit := do
  updateRecord (baseRecord w event)
  updateRecord overflowItems
  emitRecord w

/-- `_respond_saturated`. -/
def respondSaturated (w : World T F) (event : FanotifyEvent T) : Py (Frame F) Unit := do
  updateRecord (baseRecord w event)
  let sent ← respond w event.fd fanAllow
  updateRecord (saturatedItems sent)
  emitRecord w

/-! ## Records the correlation engine can read -/

section Legible

variable [FloatNum F]

/-- The fields of a record that `register_pre_execution` converts do convert. -/
structure Legible (record : Mapping F) : Prop where
  tgid : lookup (py "tgid") record = none
  pid : ∃ n, lookup (py "pid") record = some (.int n)
  score : ∃ n, scoreOf (scoreField record) = .ok n
  indicators : ∃ l, safeIndicators record = .ok l

/-- An analysis with a readable score and readable indicators. -/
def LegibleAnalysis (analysis : Json F) : Prop :=
  ∃ kvs, analysis = .obj kvs ∧ (∃ n, scoreOf ((lookup (py "score") kvs).getD .null) = .ok n) ∧
    ∃ l, safeIndicators kvs = .ok l

theorem Legible.pidOf {record : Mapping F} (h : Legible record) :
    ∃ n, Elyra.Correlation.pidOf record = .ok n := by
  obtain ⟨n, hn⟩ := h.pid
  unfold Elyra.Correlation.pidOf getTruthy
  rw [h.tgid, hn]
  by_cases hzero : n = 0
  · exact ⟨0, by simp [Option.filter, truthy, hzero]⟩
  · exact ⟨n, by simp [Option.filter, truthy, hzero, pyInt]⟩

theorem Legible.registrationOf {record : Mapping F} (h : Legible record) :
    ∃ r, Elyra.Correlation.registrationOf record = .ok r := by
  obtain ⟨n, hn⟩ := h.score
  obtain ⟨l, hl⟩ := h.indicators
  unfold Elyra.Correlation.registrationOf
  rw [hn, hl]
  exact ⟨_, rfl⟩

/-- The keys `Legible` speaks of. -/
def readKeys : List PyStr :=
  [py "tgid", py "pid", py "score", py "risk_score", py "indicators"]

/-- Changes to other keys do not matter. -/
theorem Legible.of_same {record record' : Mapping F} (h : Legible record)
    (hsame : ∀ k ∈ readKeys, lookup k record' = lookup k record) : Legible record' := by
  have htgid := hsame (py "tgid") (by simp [readKeys])
  have hpid := hsame (py "pid") (by simp [readKeys])
  have hscore := hsame (py "score") (by simp [readKeys])
  have hrisk := hsame (py "risk_score") (by simp [readKeys])
  have hind := hsame (py "indicators") (by simp [readKeys])
  refine ⟨htgid.trans h.tgid, ?_, ?_, ?_⟩
  · rw [hpid]
    exact h.pid
  · rw [scoreField, hscore, hrisk]
    exact h.score
  · unfold safeIndicators
    rw [hind]
    exact h.indicators

theorem Legible.updated {record items : Mapping F} (h : Legible record)
    (hnd : (keys items).Nodup) (hnone : ∀ k ∈ readKeys, lookup k items = none) :
    Legible (Elyra.Fanotify.updated items record) := by
  refine h.of_same fun k hk => ?_
  rw [lookup_updated hnd, hnone k hk, Option.none_or]

theorem legible_base (w : World T F) (event : FanotifyEvent T) :
    Legible (updated (baseRecord w event) []) := by
  have hnd : (keys (baseRecord w event)).Nodup := by
    simp only [keys, baseRecord, List.map_cons, List.map_nil]
    decide
  have hlook : ∀ k, lookup k (updated (baseRecord w event) []) = lookup k (baseRecord w event) := by
    intro k
    rw [lookup_updated hnd]
    exact Option.or_none
  refine ⟨(hlook _).trans rfl, ⟨event.pid, (hlook _).trans rfl⟩, ⟨0, ?_⟩, ⟨[], ?_⟩⟩
  · rw [scoreField, hlook, hlook]
    rfl
  · unfold safeIndicators
    rw [hlook]
    rfl

theorem legible_overflow {record : Mapping F} (h : Legible record) :
    Legible (updated overflowItems record) := by
  refine h.updated ?_ ?_
  · simp only [keys, overflowItems, List.map_cons, List.map_nil]
    decide
  · simp only [readKeys, List.forall_mem_cons, List.not_mem_nil, false_implies, implies_true]
    exact ⟨rfl, rfl, rfl, rfl, rfl, trivial⟩

theorem legible_saturated {record : Mapping F} (h : Legible record) (sent : Bool) :
    Legible (updated (saturatedItems sent) record) := by
  refine h.updated ?_ ?_
  · simp only [keys, saturatedItems, List.map_cons, List.map_nil]
    decide
  · simp only [readKeys, List.forall_mem_cons, List.not_mem_nil, false_implies, implies_true]
    exact ⟨rfl, rfl, rfl, rfl, rfl, trivial⟩

/-- The items of a decision replace the score and the indicators by those of the analysis. -/
theorem legible_decision {record items : Mapping F} {d : Decision F} {finalAction : PyStr}
    (h : Legible record) (hd : LegibleAnalysis d.analysis)
    (hitems : decisionItems d finalAction = .ok items) : Legible (updated items record) := by
  have hnd := decisionItems_nodup hitems
  obtain ⟨kvs, risk, status, hkvs, rfl⟩ := decisionItems_ok hitems
  obtain ⟨kvs', hkvs', ⟨n, hn⟩, l, hl⟩ := hd
  rw [hkvs] at hkvs'
  cases hkvs'
  refine ⟨?_, ?_, ⟨n, ?_⟩, ⟨l, ?_⟩⟩
  · rw [lookup_updated hnd]
    exact h.tgid
  · rw [lookup_updated hnd]
    exact h.pid
  · rw [scoreField, lookup_updated hnd]
    exact hn
  · have hlook : lookup (py "indicators") (updated _ record) =
        some ((lookup (py "indicators") kvs).getD (.arr [])) := lookup_updated hnd record
    unfold safeIndicators at hl ⊢
    rw [hlook]
    cases hind : lookup (py "indicators") kvs with
    | none =>
        rw [hind] at hl
        exact hl
    | some v =>
        rw [hind] at hl
        exact hl

end Legible

/-! ## Analyses -/

section Analyses

variable [FloatNum F] [Zero T] [Add T] [Sub T] [Min T] [LE T] [DecidableLE T]

theorem legibleAnalysis_empty : LegibleAnalysis (.obj [] : Json F) :=
  ⟨[], rfl, ⟨0, rfl⟩, [], rfl⟩

theorem mapM_dictOfItem (l : List (Mapping F)) :
    (l.map Json.obj).mapM dictOfItem = .ok l := by
  induction l with
  | nil => rfl
  | cons kvs l ih =>
      rw [List.map_cons, List.mapM_cons, ih]
      rfl

/-- A mapping with an integer score and a list of mappings for indicators. -/
theorem legibleAnalysis_of_lookup {kvs : Mapping F} {n : Int} {l : List (Mapping F)}
    (hscore : lookup (py "score") kvs = some (.int n))
    (hind : lookup (py "indicators") kvs = some (.arr (l.map Json.obj))) :
    LegibleAnalysis (.obj kvs) := by
  refine ⟨kvs, rfl, ⟨clampScore n, ?_⟩, l, ?_⟩
  · rw [hscore]
    rfl
  · unfold safeIndicators
    rw [hind]
    exact mapM_dictOfItem l

theorem legibleAnalysis_scored {kvs : Mapping F} {r : ScoringResult F}
    (h : ∀ k ∈ [py "score", py "indicators"], lookup k kvs = lookup k r.toDict) :
    LegibleAnalysis (.obj kvs) := by
  have hscore := h (py "score") (by simp)
  have hind := h (py "indicators") (by simp)
  exact legibleAnalysis_of_lookup (hscore.trans rfl) (hind.trans rfl)

theorem legibleAnalysis_degraded (b : Bench T F) (rule error : String) (evidence : Mapping F) :
    LegibleAnalysis (.obj (b.degraded rule evidence error)) := by
  refine legibleAnalysis_scored (r := degradedResult b.labels rule (.obj evidence)) ?_
  intro k hk
  have hne : k ≠ py "error" := by
    rintro rfl
    revert hk
    decide
  rw [Bench.degraded, lookup_assign, if_neg hne]

theorem legibleAnalysis_marked (status : ScanStatus) (scored : ScoringResult F) (ai : Json F)
    (scan : StaticScanResult F) :
    LegibleAnalysis (.obj (markStatus status (scanned scored ai scan))) := by
  have hnd : (keys (scanItems ai scan)).Nodup := by
    simp only [keys, scanItems, List.map_cons, List.map_nil]
    decide
  have hupdated : scanned scored ai scan = updated (scanItems ai scan) scored.toDict := rfl
  refine legibleAnalysis_scored (r := scored) fun k hk => ?_
  have hne : k ≠ py "error" ∧ k ≠ py "notes" ∧ k ≠ py "scoring_status" ∧ k ≠ py "decision" ∧
      lookup k (scanItems ai scan) = none := by
    simp only [List.mem_cons, List.not_mem_nil, or_false] at hk
    rcases hk with rfl | rfl
    · exact ⟨by decide, by decide, by decide, by decide, rfl⟩
    · exact ⟨by decide, by decide, by decide, by decide, rfl⟩
  obtain ⟨herror, hnotes, hstatus, hdecision, hitems⟩ := hne
  have hscanned : lookup k (scanned scored ai scan) = lookup k scored.toDict := by
    rw [hupdated, lookup_updated hnd, hitems, Option.none_or]
  cases status with
  | ok => exact hscanned
  | error => rw [markStatus, lookup_assign, if_neg herror, hscanned]
  | partialScan =>
      rw [markStatus, appendNote_lookup hnotes, lookup_assign, if_neg hstatus, lookup_assign,
        if_neg hdecision, hscanned]

/-- What the analyzer returns can be read, whatever the scan came to. -/
theorem legibleAnalysis_bench {b : Bench T F} {filepath : PyStr} {timeout : T} {result : Mapping F}
    (h : b.analyzeOpenFdAsync filepath timeout = .ok result) : LegibleAnalysis (.obj result) := by
  have hjob : ∀ result, b.analyzeOpenFd = .ok result → LegibleAnalysis (.obj result) := by
    intro result hresult
    unfold Bench.analyzeOpenFd at hresult
    simp only [bind, Except.bind, Bench.scoreScan] at hresult
    split at hresult
    · cases hresult
    · split at hresult
      · cases hresult
      · split at hresult
        · cases hresult
        · split at hresult
          · cases hresult
          · cases hresult
            exact legibleAnalysis_marked ..
  unfold Bench.analyzeOpenFdAsync at h
  split at h
  · cases h
  · unfold Bench.wait at h
    dsimp only at h
    split at h
    · cases h
      exact legibleAnalysis_degraded ..
    · split at h
      · cases h
        exact legibleAnalysis_degraded ..
      · split at h
        · next hok =>
          cases h
          exact hjob _ hok
        · split at h
          · cases h
            exact legibleAnalysis_degraded ..
          · split at h
            · cases h
              exact legibleAnalysis_degraded ..
            · cases h

variable {p : FanotifyPolicy T} {w : World T F} {event : FanotifyEvent T} {d : Decision F}

theorem failureDecision_legible {path : Option PyStr} {reason : PyStr} {analysis : Json F}
    (ha : analysis = .null ∨ LegibleAnalysis analysis)
    (h : failureDecision p w path reason analysis = .ok d) : LegibleAnalysis d.analysis := by
  have hkept : LegibleAnalysis (if truthy analysis then analysis else .obj []) := by
    rcases ha with rfl | ha
    · exact legibleAnalysis_empty
    · split
      · exact ha
      · exact legibleAnalysis_empty
  unfold failureDecision at h
  simp only [bind, Except.bind] at h
  split at h
  · cases h
  · split at h
    · cases h
      exact hkept
    · cases h
      exact hkept

theorem judge_legible {path : Option PyStr} {analysis : Json F} (ha : LegibleAnalysis analysis)
    (h : judge p w path analysis = .ok d) : LegibleAnalysis d.analysis := by
  have hkvs := ha
  obtain ⟨kvs, rfl, -⟩ := hkvs
  unfold judge at h
  simp only [getField, bind, Except.bind] at h
  split at h
  · exact failureDecision_legible (.inr ha) h
  · split at h
    · cases h
      exact ha
    · exact failureDecision_legible (.inr ha) h

/-- The analysis of a decision can be read when those of the analyzer can. -/
theorem evaluateEvent_legible (hw : ∀ t v, w.analysis t = .ok v → LegibleAnalysis v)
    (h : evaluateEvent p w event = .ok d) : LegibleAnalysis d.analysis := by
  have hfile : ∀ d, evaluateFile p w event = .ok d → LegibleAnalysis d.analysis := by
    intro d h
    unfold evaluateFile at h
    split at h
    · exact failureDecision_legible (.inl rfl) h
    · split at h
      · cases h
        exact legibleAnalysis_empty
      · split at h
        · next metadata _ _ _ =>
          cases h
          exact legibleAnalysis_of_lookup (n := 0)
            (l := [[(py "rule", .str (py "LARGE_FILE_DEFERRED_FAIL_OPEN")),
              (py "evidence", .obj [(py "file_size", .int metadata.size),
                (py "limit", .int p.maxPreexecFileBytes)])]]) rfl rfl
        · dsimp only at h
          split at h
          · exact failureDecision_legible (.inl rfl) h
          · split at h
            · cases h
            · next hanalysis =>
              split at h
              · exact failureDecision_legible (.inr (hw _ _ hanalysis)) h
              · exact judge_legible (hw _ _ hanalysis) h
  unfold evaluateEvent at h
  split at h
  · exact failureDecision_legible (.inl rfl) h
  · split at h
    · cases h
    · cases h
      exact legibleAnalysis_empty
    · split at h
      · cases h
      · cases h
        exact legibleAnalysis_empty
      · split at h
        · cases h
        · cases h
          exact legibleAnalysis_empty
        · exact hfile _ h

end Analyses

/-! ## Emitting -/

section Emitting

variable [FloatNum F] [Zero T] [Add T] [Sub T] [Min T] [LE T] [DecidableLE T]

/-- `_emit_record` goes on to the queue after this call of the audit logger. -/
def survives : Except Exc Unit → Bool
  | .ok _ => true
  | .error e => e.isIn [.osError, .valueError, .typeError]

/-- The frame of a statement that has emitted nothing yet and whose record can be read. -/
structure Unemitted (s : Frame F) : Prop where
  legible : Legible s.record
  emitted : s.emitted = []
  queued : s.queued = []

/-- From the frame `s`, the statement emits one record, which can be read, and queues it unless the
    audit logger stops it. -/
def EmitsOne (w : World T F) (x : Py (Frame F) Unit) (s : Frame F) : Prop :=
  ∃ record, Legible record ∧ (Py.final x s).emitted = [record] ∧
    (Py.final x s).queued = if survives (w.audit 0) then [record] else []

theorem emitRecord_emitsOne (w : World T F) {s : Frame F} (h : Unemitted s) :
    EmitsOne w (emitRecord w) s ∧ (Py.raised (emitRecord w) s).isNone = survives (w.audit 0) := by
  unfold EmitsOne Py.final Py.raised
  rw [emitRecord_run, h.emitted, h.queued]
  rw [List.length_nil]
  cases w.audit 0 with
  | ok _ => exact ⟨⟨s.record, h.legible, rfl, rfl⟩, rfl⟩
  | error e =>
      cases he : e.isIn [.osError, .valueError, .typeError] with
      | true =>
          simp only [survives, he, if_true]
          exact ⟨⟨s.record, h.legible, rfl, rfl⟩, rfl⟩
      | false =>
          simp only [survives, he, Bool.false_eq_true, if_false]
          exact ⟨⟨s.record, h.legible, rfl, trivial⟩, rfl⟩

theorem unemitted_base (w : World T F) (event : FanotifyEvent T) :
    Unemitted { (Frame.new : Frame F) with record := updated (baseRecord w event) [] } :=
  ⟨legible_base w event, rfl, rfl⟩

/-- The overflow of the queue is recorded, and ends the reader only through the audit logger. -/
theorem recordOverflow_emitsOne (w : World T F) (event : FanotifyEvent T) :
    EmitsOne w (recordOverflow w event) Frame.new ∧
      (Py.raised (recordOverflow w event) Frame.new).isNone = survives (w.audit 0) := by
  have hstart := unemitted_base w event
  exact emitRecord_emitsOne w (s := { (Frame.new : Frame F) with
    record := updated overflowItems (updated (baseRecord w event) []) })
    ⟨legible_overflow hstart.legible, rfl, rfl⟩

theorem respondSaturated_run (w : World T F) (event : FanotifyEvent T) :
    respondSaturated w event Frame.new =
      match respondResult w.groupFd (w.write 0) event.fd fanAllow with
      | .error e => .error e { (Frame.new : Frame F) with
          record := updated (baseRecord w event) []
          responses := [⟨event.fd, fanAllow, .error e⟩] }
      | .ok sent => emitRecord w { (Frame.new : Frame F) with
          record := updated (saturatedItems sent) (updated (baseRecord w event) [])
          responses := [⟨event.fd, fanAllow, .ok sent⟩] } := by
  have hfirst : respondSaturated w event Frame.new =
      (do
        let sent ← respond w event.fd fanAllow
        updateRecord (saturatedItems sent)
        emitRecord w : Py (Frame F) Unit)
      { (Frame.new : Frame F) with record := updated (baseRecord w event) [] } := rfl
  rw [hfirst]
  simp only [bind, EStateM.bind, respond_run]
  have hlen : (Frame.new : Frame F).responses.length = 0 := rfl
  simp only [hlen]
  cases respondResult w.groupFd (w.write 0) event.fd fanAllow with
  | error e => rfl
  | ok sent => rfl

/-- An allowance is not raised for when the group is closed or the write ends. -/
theorem respondResult_allow {groupFd : Int} {write : Except PyStr Nat} (fd : Int)
    (h : groupFd < 0 ∨ write.isOk = true) :
    ∃ sent, respondResult groupFd write fd fanAllow = .ok sent := by
  unfold respondResult
  rw [if_neg (by decide : ¬ (fanAllow ≠ fanAllow ∧ fanAllow ≠ fanDeny))]
  split
  · exact ⟨_, rfl⟩
  · split
    · exact ⟨_, rfl⟩
    · next hgroup =>
      cases write with
      | ok n => exact ⟨_, rfl⟩
      | error text => exact absurd h (by simp [hgroup, Except.isOk, Except.toBool])

/-- The same for a saturated queue, when the write to the group does not raise. -/
theorem respondSaturated_emitsOne {w : World T F} (event : FanotifyEvent T)
    (hwrite : w.groupFd < 0 ∨ (w.write 0).isOk = true) :
    EmitsOne w (respondSaturated w event) Frame.new ∧
      (Py.raised (respondSaturated w event) Frame.new).isNone = survives (w.audit 0) := by
  have hstart := unemitted_base w event
  obtain ⟨sent, hsent⟩ := respondResult_allow event.fd hwrite
  have hrun := respondSaturated_run w event
  rw [hsent] at hrun
  unfold EmitsOne Py.final Py.raised
  rw [hrun]
  exact emitRecord_emitsOne w ⟨legible_saturated hstart.legible sent, rfl, rfl⟩

theorem guarded_unemitted (w : World T F) (event : FanotifyEvent T) {s : Frame F}
    (h : Unemitted s) : Unemitted (guarded w event s) := by
  refine ⟨?_, h.emitted, h.queued⟩
  have hguard : ∀ sent, Legible (updated (guardItems sent) s.record) := by
    intro sent
    refine h.legible.updated (guardItems_nodup sent) ?_
    simp only [readKeys, List.forall_mem_cons, List.not_mem_nil, false_implies, implies_true]
    exact ⟨rfl, rfl, rfl, rfl, rfl, trivial⟩
  refine (hguard _).of_same fun k hk => withReason_lookup ?_ _
  rintro rfl
  revert hk
  decide

/-- The body of `_handle_event` and its `except` clause emit nothing and keep the record legible. -/
theorem tryBody_unemitted {p : FanotifyPolicy T} {w : World T F} {event : FanotifyEvent T}
    (hw : ∀ t v, w.analysis t = .ok v → LegibleAnalysis v) :
    Py.Keeps Unemitted
      (Py.tryExcept (decideAndRespond p w event) handledClasses (failOpen (F := F))) := by
  refine Py.Keeps.tryExcept ?_ ?_
  · intro s h
    rcases decideAndRespond_cases p w event s with ⟨e, hrun, -⟩ | ⟨d, items, ⟨hd, hitems⟩, hrun⟩
    · unfold Py.final
      rw [hrun]
      exact h
    · have hlegible : Legible (updated items s.record) :=
        legible_decision h.legible (evaluateEvent_legible hw hd) hitems
      unfold Py.final
      rw [hrun]
      cases respondResult w.groupFd (w.write s.responses.length) event.fd (answerTo w d) with
      | error e => exact ⟨hlegible, h.emitted, h.queued⟩
      | ok sent =>
          refine ⟨hlegible.updated ?_ ?_, h.emitted, h.queued⟩
          · simp [keys]
          · simp only [readKeys, List.forall_mem_cons, List.not_mem_nil, false_implies,
              implies_true]
            exact ⟨rfl, rfl, rfl, rfl, rfl, trivial⟩
  · intro e s h
    refine ⟨h.legible.updated (failOpenItems_nodup e) ?_, h.emitted, h.queued⟩
    simp only [readKeys, List.forall_mem_cons, List.not_mem_nil, false_implies, implies_true]
    exact ⟨rfl, rfl, rfl, rfl, rfl, trivial⟩

/-- **Handling an event emits one record**, on every path through the handler. -/
theorem handleEvent_emitsOne {p : FanotifyPolicy T} {w : World T F} {event : FanotifyEvent T}
    (hw : ∀ t v, w.analysis t = .ok v → LegibleAnalysis v) :
    EmitsOne w (handleEvent p w event) Frame.new := by
  have hbody : Unemitted (Py.final
      (Py.tryExcept (decideAndRespond p w event) handledClasses failOpen)
      { (Frame.new : Frame F) with record := updated (baseRecord w event) [] }) :=
    tryBody_unemitted hw _ (unemitted_base w event)
  have hrun : Py.final (handleEvent p w event) Frame.new =
      Py.final (finalGuard w event)
        (Py.final (Py.tryExcept (decideAndRespond p w event) handledClasses failOpen)
          { (Frame.new : Frame F) with record := updated (baseRecord w event) [] }) := by
    rw [← Py.final_tryFinally]
    rfl
  generalize Py.final (Py.tryExcept (decideAndRespond p w event) handledClasses failOpen)
    { (Frame.new : Frame F) with record := updated (baseRecord w event) [] } = s at hbody hrun
  unfold EmitsOne
  rw [hrun]
  cases hattempted : s.responseAttempted with
  | true =>
      unfold Py.final
      rw [finalGuard_of_attempted w event hattempted]
      exact (emitRecord_emitsOne w hbody).1
  | false =>
      unfold Py.final
      rw [finalGuard_of_not_attempted w event hattempted]
      exact (emitRecord_emitsOne w (guarded_unemitted w event hbody)).1

end Emitting

end Elyra.Fanotify
