import Elyra.Fanotify.Controller
import Elyra.Correlation.Denial

set_option autoImplicit false
set_option linter.unusedSectionVars false

/-! # The answer to a permission event

What `_handle_event` does on every path through its `try` statement. Either the decision is made and
`respond` is called in the body, and then its result decides what the record says, or an exception
keeps the body from getting there and the `finally` clause answers. Both the kernel's answer and the
record follow from that (`handleEvent_cases`).

The record is not always true to the answer: it is written before the answer is sent, the `except`
clause overwrites it when the write raises, and the correlation engine reads `final_action` without
looking at `response_ok`. -/

namespace Elyra.Fanotify

open Elyra.Python Elyra.Correlation

variable {T F : Type} [FloatNum F] [Zero T] [Add T] [Sub T] [LE T] [DecidableLE T]

/-! ## The paths through the handler -/

/-- The value the body of the `try` statement passes to `respond`. -/
def answerTo (w : World T F) (d : Decision F) : Nat :=
  responseValue (getFinalAction w.finalMode d.requested)

/-- The body gets as far as `respond`, with this decision and these items of the record. -/
def Decides (p : FanotifyPolicy T) (w : World T F) (event : FanotifyEvent T) (d : Decision F)
    (items : Mapping F) : Prop :=
  evaluateEvent p w event = .ok d ∧
    decisionItems d (getFinalAction w.finalMode d.requested) = .ok items

/-- The frame when `respond` has been called in the body. -/
def answered (w : World T F) (event : FanotifyEvent T) (d : Decision F) (items : Mapping F)
    (s : Frame F) : Frame F :=
  { s with
    record := updated items s.record
    responseAttempted := true
    responses := s.responses ++ [⟨event.fd, answerTo w d,
      respondResult w.groupFd (w.write s.responses.length) event.fd (answerTo w d)⟩] }

theorem updateRecord_run (items : Mapping F) (s : Frame F) :
    updateRecord items s = .ok () { s with record := updated items s.record } := rfl

theorem respond_run (w : World T F) (fd : Int) (value : Nat) (s : Frame F) :
    respond w fd value s =
      match respondResult w.groupFd (w.write s.responses.length) fd value with
      | .error e => .error e { s with responses := s.responses ++ [⟨fd, value, .error e⟩] }
      | .ok sent => .ok sent { s with responses := s.responses ++ [⟨fd, value, .ok sent⟩] } := by
  have h : respond w fd value s =
      Py.eval (respondResult w.groupFd (w.write s.responses.length) fd value)
        { s with responses := s.responses ++
          [⟨fd, value, respondResult w.groupFd (w.write s.responses.length) fd value⟩] } := rfl
  rw [h]
  cases respondResult w.groupFd (w.write s.responses.length) fd value <;> rfl

theorem decideAndRespond_cases (p : FanotifyPolicy T) (w : World T F) (event : FanotifyEvent T)
    (s : Frame F) :
    (∃ e, decideAndRespond p w event s = .error e s ∧ ∀ d items, ¬ Decides p w event d items) ∨
    ∃ d items, Decides p w event d items ∧ decideAndRespond p w event s =
      match respondResult w.groupFd (w.write s.responses.length) event.fd (answerTo w d) with
      | .error e => .error e (answered w event d items s)
      | .ok sent => .ok () { answered w event d items s with
          responseSent := sent
          record := updated [(py "response_ok", .bool sent)] (updated items s.record) } := by
  cases hd : evaluateEvent p w event with
  | error e =>
      refine .inl ⟨e, ?_, ?_⟩
      · simp only [decideAndRespond, bind, EStateM.bind, Py.eval, hd]
      · rintro d items ⟨hd', -⟩
        rw [hd] at hd'
        cases hd'
  | ok d =>
      cases hi : decisionItems d (getFinalAction w.finalMode d.requested) with
      | error e =>
          refine .inl ⟨e, ?_, ?_⟩
          · simp only [decideAndRespond, bind, EStateM.bind, Py.eval, hd, hi]
          · rintro d items ⟨hd', hitems⟩
            rw [hd] at hd'
            cases hd'
            rw [hi] at hitems
            cases hitems
      | ok items =>
          refine .inr ⟨d, items, ⟨hd, hi⟩, ?_⟩
          have hrun : decideAndRespond p w event s =
              (do
                let sent ← respond w event.fd (answerTo w d)
                modify fun s => { s with responseSent := sent }
                updateRecord [(py "response_ok", .bool sent)] : Py (Frame F) Unit)
              { s with record := updated items s.record, responseAttempted := true } := by
            simp only [decideAndRespond, bind, EStateM.bind, Py.eval, hd, hi]
            rfl
          rw [hrun, answered]
          simp only [bind, EStateM.bind, respond_run]
          cases respondResult w.groupFd (w.write s.responses.length) event.fd (answerTo w d) <;> rfl

/-- `respond` raises only what the handler catches. -/
theorem respondResult_handled {groupFd eventFd : Int} {write : Except PyStr Nat} {value : Nat}
    {e : Exc} (h : respondResult groupFd write eventFd value = .error e) :
    e.isIn handledClasses = true := by
  unfold respondResult at h
  split at h
  · cases h
  · split at h
    · cases h
      rfl
    · split at h
      · cases h
      · cases write with
        | ok n => cases h
        | error text =>
            cases h
            rfl

/-- `response_sent`, when the result of `respond` is caught. -/
def sentOf : Except Exc Bool → Bool
  | .ok sent => sent
  | .error _ => false

/-- The items the `finally` clause writes when it has answered. -/
def guardItems (sent : Bool) : Mapping F :=
  [(py "response_ok", .bool sent), (py "kernel_response", .str (py "FAN_ALLOW")),
    (py "final_action", .str (py "ALLOW"))]

/-- `record.setdefault("reason", "FINAL_GUARD_FAIL_OPEN")`. -/
def withReason (record : Mapping F) : Mapping F :=
  if (lookup (py "reason") record).isSome then record
  else assign (py "reason") (.str (py "FINAL_GUARD_FAIL_OPEN")) record

/-- The frame when the `finally` clause has answered. -/
def guarded (w : World T F) (event : FanotifyEvent T) (s : Frame F) : Frame F :=
  let result := respondResult w.groupFd (w.write s.responses.length) event.fd fanAllow
  { s with
    record := withReason (updated (guardItems (sentOf result)) s.record)
    responseSent := sentOf result
    responseAttempted := true
    responses := s.responses ++ [⟨event.fd, fanAllow, result⟩] }

theorem finalGuard_of_attempted (w : World T F) (event : FanotifyEvent T) {s : Frame F}
    (h : s.responseAttempted = true) : finalGuard w event s = emitRecord w s := by
  simp only [finalGuard, bind, EStateM.bind, run_get, h, Bool.not_true]
  rfl

theorem setDefault_run (s : Frame F) :
    setDefault "reason" (.str (py "FINAL_GUARD_FAIL_OPEN")) s =
      .ok () { s with record := withReason s.record } := by
  simp only [setDefault, run_modify, withReason]
  split <;> rfl

theorem lastAnswer_run (w : World T F) (event : FanotifyEvent T) (s : Frame F) :
    lastAnswer w event s =
      let result := respondResult w.groupFd (w.write s.responses.length) event.fd fanAllow
      .ok () { s with
        responseSent := sentOf result
        responseAttempted := true
        responses := s.responses ++ [⟨event.fd, fanAllow, result⟩] } := by
  have hrun : lastAnswer w event s =
      Py.tryExcept
        (do
          let sent ← respond w event.fd fanAllow
          modify fun s => { s with responseSent := sent })
        handledClasses (fun _ => modify fun s => { s with responseSent := false })
        { s with responseAttempted := true } := rfl
  rw [hrun]
  simp only [Py.tryExcept, bind, EStateM.bind, respond_run]
  cases hr : respondResult w.groupFd (w.write s.responses.length) event.fd fanAllow with
  | ok sent => rfl
  | error e =>
      simp only [respondResult_handled hr, if_true]
      rfl

theorem finalGuard_of_not_attempted (w : World T F) (event : FanotifyEvent T) {s : Frame F}
    (h : s.responseAttempted = false) :
    finalGuard w event s = emitRecord w (guarded w event s) := by
  simp only [finalGuard, bind, EStateM.bind, run_get, h, Bool.not_false, if_true, lastAnswer_run,
    updateRecord_run, setDefault_run]
  rfl

/-- Emitting a record changes nothing else of the frame, and queues the record unless the audit
    logger raises what `_emit_record` does not catch. -/
theorem emitRecord_run (w : World T F) (s : Frame F) :
    let emitted : Frame F := { s with emitted := s.emitted ++ [s.record] }
    emitRecord w s =
      match w.audit s.emitted.length with
      | .ok _ => .ok () { emitted with queued := s.queued ++ [s.record] }
      | .error e =>
          if e.isIn [.osError, .valueError, .typeError] then
            .ok () { emitted with queued := s.queued ++ [s.record] }
          else .error e emitted := by
  have hrun : emitRecord w s =
      (do
        Py.tryExcept (Py.eval (w.audit s.emitted.length)) [.osError, .valueError, .typeError]
          fun _ => pure ()
        modify fun s => { s with queued := s.queued ++ [s.record] } : Py (Frame F) Unit)
      { s with emitted := s.emitted ++ [s.record] } := rfl
  rw [hrun]
  simp only [bind, EStateM.bind, Py.tryExcept, Py.eval]
  cases w.audit s.emitted.length with
  | ok _ => rfl
  | error e =>
      by_cases he : e.isIn [.osError, .valueError, .typeError] = true
      · simp only [he, if_true]
        rfl
      · simp only [he, Bool.false_eq_true, if_false]

theorem emitRecord_final (w : World T F) (s : Frame F) :
    ∃ queued, Py.final (emitRecord w) s =
      { s with emitted := s.emitted ++ [s.record], queued := queued } := by
  unfold Py.final
  rw [emitRecord_run]
  cases w.audit s.emitted.length with
  | ok _ => exact ⟨_, rfl⟩
  | error e =>
      by_cases he : e.isIn [.osError, .valueError, .typeError] = true
      · simp only [he, if_true]
        exact ⟨_, rfl⟩
      · simp only [he, Bool.false_eq_true, if_false]
        exact ⟨s.queued, rfl⟩

/-- The ways an event is handled, by the frame the handler leaves. -/
inductive Handled (p : FanotifyPolicy T) (w : World T F) (event : FanotifyEvent T) :
    Frame F → Prop
  /-- No decision; the `finally` clause answers. -/
  | guarded (s : Frame F) (base : Mapping F) (result : Except Exc Bool) :
      (∀ d items, ¬ Decides p w event d items) →
      s.record = withReason (updated (guardItems (sentOf result)) base) →
      s.responses = [⟨event.fd, fanAllow, result⟩] → s.emitted = [s.record] → Handled p w event s
  /-- A decision, and an answer that did not raise. -/
  | answered (s : Frame F) (d : Decision F) (items : Mapping F) (sent : Bool) :
      Decides p w event d items →
      respondResult w.groupFd (w.write 0) event.fd (answerTo w d) = .ok sent →
      s.record = updated [(py "response_ok", .bool sent)] (updated items (baseRecord w event)) →
      s.responses = [⟨event.fd, answerTo w d, .ok sent⟩] → s.emitted = [s.record] →
      Handled p w event s
  /-- A decision, and an answer that raised. -/
  | unanswered (s : Frame F) (d : Decision F) (items : Mapping F) (e : Exc) :
      Decides p w event d items →
      respondResult w.groupFd (w.write 0) event.fd (answerTo w d) = .error e →
      s.record = updated (failOpenItems e) (updated items (baseRecord w event)) →
      s.responses = [⟨event.fd, answerTo w d, .error e⟩] → s.emitted = [s.record] →
      Handled p w event s

theorem failOpen_final (e : Exc) (s : Frame F) :
    Py.final (failOpen e) s = { s with record := updated (failOpenItems e) s.record } := rfl

/-- The frame the `finally` clause starts from decides how it ends. -/
theorem finalGuard_final (w : World T F) (event : FanotifyEvent T) (s : Frame F) :
    let s' := if s.responseAttempted then s else guarded w event s
    ∃ queued, Py.final (finalGuard w event) s =
      { s' with emitted := s'.emitted ++ [s'.record], queued := queued } := by
  cases h : s.responseAttempted with
  | true =>
      have hrun : Py.final (finalGuard w event) s = Py.final (emitRecord w) s := by
        unfold Py.final
        rw [finalGuard_of_attempted w event h]
      rw [hrun]
      exact emitRecord_final w s
  | false =>
      have hrun : Py.final (finalGuard w event) s =
          Py.final (emitRecord w) (guarded w event s) := by
        unfold Py.final
        rw [finalGuard_of_not_attempted w event h]
      rw [hrun]
      exact emitRecord_final w _

theorem handleEvent_handled (p : FanotifyPolicy T) (w : World T F) (event : FanotifyEvent T) :
    Handled p w event (Py.final (handleEvent p w event) Frame.new) := by
  have hstart : Py.final (handleEvent p w event) Frame.new =
      Py.final (finalGuard w event)
        (Py.final (Py.tryExcept (decideAndRespond p w event) handledClasses failOpen)
          { Frame.new with record := baseRecord w event }) := by
    rw [← Py.final_tryFinally]
    rfl
  rw [hstart]
  rcases decideAndRespond_cases p w event { Frame.new with record := baseRecord w event } with
    ⟨e, hbody, hno⟩ | ⟨d, items, hdec, hbody⟩
  · rw [Py.final_tryExcept_of_error hbody, failOpen_final]
    obtain ⟨base, hbase⟩ : ∃ base : Mapping F,
        (if e.isIn handledClasses then
          { (Frame.new : Frame F) with
            record := updated (failOpenItems e) (baseRecord w event) }
        else { Frame.new with record := baseRecord w event }) =
          { Frame.new with record := base } := by
      split
      · exact ⟨_, rfl⟩
      · exact ⟨_, rfl⟩
    rw [hbase]
    obtain ⟨queued, hend⟩ := finalGuard_final w event { Frame.new with record := base }
    rw [hend]
    exact .guarded _ base _ hno rfl rfl rfl
  · cases hr : respondResult w.groupFd (w.write 0) event.fd (answerTo w d) with
    | ok sent =>
        rw [show (Frame.new : Frame F).responses.length = 0 from rfl, hr] at hbody
        rw [Py.final_tryExcept_of_ok hbody]
        obtain ⟨queued, hend⟩ := finalGuard_final w event { answered w event d items
          { (Frame.new : Frame F) with record := baseRecord w event } with
            responseSent := sent
            record := updated [(py "response_ok", .bool sent)] (updated items (baseRecord w event)) }
        rw [hend]
        refine .answered _ d items sent hdec hr rfl ?_ rfl
        simp [answered, Frame.new, hr]
    | error e =>
        rw [show (Frame.new : Frame F).responses.length = 0 from rfl, hr] at hbody
        rw [Py.final_tryExcept_of_error hbody, if_pos (respondResult_handled hr)]
        obtain ⟨queued, hend⟩ := finalGuard_final w event (Py.final (failOpen e)
          (answered w event d items { Frame.new with record := baseRecord w event }))
        rw [hend]
        refine .unanswered _ d items e hdec hr rfl ?_ rfl
        simp [failOpen_final, answered, Frame.new, hr]

/-! ## One answer, one record -/

theorem failureDecision_requested {p : FanotifyPolicy T} {w : World T F} {path : Option PyStr}
    {reason : PyStr} {analysis : Json F} {d : Decision F}
    (h : failureDecision p w path reason analysis = .ok d) : d.requested ∈ validDecisions := by
  unfold failureDecision at h
  cases hfail : p.getFailPolicy (w.cwd 2) path with
  | error e =>
      rw [hfail] at h
      cases h
  | ok failPolicy =>
      simp only [hfail, bind, Except.bind] at h
      split at h
      · cases h
        simp [validDecisions]
      · cases h
        simp [validDecisions]

theorem judge_requested {p : FanotifyPolicy T} {w : World T F} {path : Option PyStr}
    {analysis : Json F} {d : Decision F} (h : judge p w path analysis = .ok d) :
    d.requested ∈ validDecisions := by
  unfold judge at h
  cases analysis with
  | obj kvs =>
      simp only [getField, bind, Except.bind] at h
      split at h
      · exact failureDecision_requested h
      · split at h
        · next hmem =>
          cases h
          exact hmem
        · exact failureDecision_requested h
  | _ => cases h

theorem evaluateFile_requested {p : FanotifyPolicy T} {w : World T F} {event : FanotifyEvent T}
    {d : Decision F} (h : evaluateFile p w event = .ok d) : d.requested ∈ validDecisions := by
  unfold evaluateFile at h
  cases hstat : w.fstat with
  | error text =>
      rw [hstat] at h
      exact failureDecision_requested h
  | ok metadata =>
      simp only [hstat] at h
      split at h
      · cases h
        simp [validDecisions]
      · split at h
        · cases h
          simp [validDecisions]
        · split at h
          · exact failureDecision_requested h
          · split at h
            · cases h
            · split at h
              · exact failureDecision_requested h
              · exact judge_requested h

/-- The decisions `_evaluate_event` returns are the four the analyzer may give. -/
theorem evaluateEvent_requested {p : FanotifyPolicy T} {w : World T F} {event : FanotifyEvent T}
    {d : Decision F} (h : evaluateEvent p w event = .ok d) : d.requested ∈ validDecisions := by
  unfold evaluateEvent at h
  split at h
  · exact failureDecision_requested h
  · split at h
    · cases h
    · cases h
      simp [exempt, validDecisions]
    · split at h
      · cases h
      · cases h
        simp [exempt, validDecisions]
      · split at h
        · cases h
        · cases h
          simp [exempt, validDecisions]
        · exact evaluateFile_requested h

theorem answerTo_deny {p : FanotifyPolicy T} {w : World T F} {event : FanotifyEvent T}
    {d : Decision F} (h : evaluateEvent p w event = .ok d) :
    answerTo w d = fanDeny ↔ w.finalMode = .enforcement ∧ d.requested = py "DENY" := by
  have hmem := evaluateEvent_requested h
  unfold answerTo getFinalAction
  cases w.finalMode with
  | monitorOnly => simp [responseValue, fanAllow, fanDeny]; decide
  | enforcement =>
      simp only [validDecisions, List.mem_cons, List.not_mem_nil, or_false] at hmem
      rcases hmem with hreq | hreq | hreq | hreq <;> rw [hreq] <;> decide

theorem answerTo_cases (w : World T F) (d : Decision F) :
    answerTo w d = fanDeny ∨ answerTo w d = fanAllow := by
  unfold answerTo responseValue
  split
  · exact .inl rfl
  · exact .inr rfl

/-- There is one response and one record, and the response is the denial a decision asks for or an
    allowance. -/
theorem handleEvent_response (p : FanotifyPolicy T) (w : World T F) (event : FanotifyEvent T) :
    ∃ (r : Response) (record : Mapping F),
      (Py.final (handleEvent p w event) Frame.new).responses = [r] ∧
      (Py.final (handleEvent p w event) Frame.new).emitted = [record] ∧
      r.fd = event.fd ∧ (r.value = fanDeny ∨ r.value = fanAllow) ∧
      (r.value = fanDeny ↔ ∃ d items, Decides p w event d items ∧ w.finalMode = .enforcement ∧
        d.requested = py "DENY") := by
  have hallow : fanAllow ≠ fanDeny := by decide
  -- with a decision, the answer is the one the decision asks for, whether or not it is written
  have hdecided : ∀ (d : Decision F) (items : Mapping F), Decides p w event d items →
      (answerTo w d = fanDeny ↔ ∃ d items, Decides p w event d items ∧
        w.finalMode = .enforcement ∧ d.requested = py "DENY") := by
    intro d items hdec
    rw [answerTo_deny hdec.1]
    constructor
    · intro h
      exact ⟨d, items, hdec, h⟩
    · rintro ⟨d', items', hdec', h⟩
      have hsame : d' = d := Except.ok.inj (hdec'.1.symm.trans hdec.1)
      exact hsame ▸ h
  generalize Py.final (handleEvent p w event) Frame.new = s,
    handleEvent_handled p w event = hhandled
  cases hhandled with
  | guarded base result hno hrecord hresponses hemitted =>
      refine ⟨_, _, hresponses, hemitted, rfl, .inr rfl, iff_of_false hallow ?_⟩
      rintro ⟨d, items, hdec, -⟩
      exact hno d items hdec
  | answered d items sent hdec hr hrecord hresponses hemitted =>
      exact ⟨_, _, hresponses, hemitted, rfl, answerTo_cases w d, hdecided d items hdec⟩
  | unanswered d items e hdec hr hrecord hresponses hemitted =>
      exact ⟨_, _, hresponses, hemitted, rfl, answerTo_cases w d, hdecided d items hdec⟩

/-- Every permission event is answered once and recorded once. The answer is a denial only if the
    mode is `ENFORCEMENT` when the final action is computed and the requested decision is `DENY`,
    and then it is one whenever the analysis can be read; otherwise it is an allowance. -/
theorem one_answer_per_event (p : FanotifyPolicy T) (w : World T F) (event : FanotifyEvent T) :
    ∃ (r : Response) (record : Mapping F),
      (Py.final (handleEvent p w event) Frame.new).responses = [r] ∧
      (Py.final (handleEvent p w event) Frame.new).emitted = [record] ∧
      r.fd = event.fd ∧
      (r.value = fanDeny → w.finalMode = .enforcement ∧
        ∃ d, evaluateEvent p w event = .ok d ∧ d.requested = py "DENY") ∧
      (r.value ≠ fanDeny → r.value = fanAllow) ∧
      (∀ d items, Decides p w event d items → w.finalMode = .enforcement →
        d.requested = py "DENY" → r.value = fanDeny) := by
  obtain ⟨r, record, hresponses, hemitted, hfd, hvalue, hdeny⟩ := handleEvent_response p w event
  refine ⟨r, record, hresponses, hemitted, hfd, ?_, hvalue.resolve_left, ?_⟩
  · intro h
    obtain ⟨d, items, hdec, hmode, hreq⟩ := hdeny.1 h
    exact ⟨hmode, d, hdec.1, hreq⟩
  · intro d items hdec hmode hreq
    exact hdeny.2 ⟨d, items, hdec, hmode, hreq⟩

/-! ## What the record says -/

section Record

/-- Updating a dictionary with distinct keys. -/
theorem lookup_updated {k : PyStr} {items : Mapping F} (hnd : (keys items).Nodup)
    (record : Mapping F) :
    lookup k (updated items record) = (lookup k items).or (lookup k record) := by
  induction items generalizing record with
  | nil => rfl
  | cons kv items ih =>
      obtain ⟨k', v⟩ := kv
      simp only [keys, List.map_cons, List.nodup_cons] at hnd
      have hstep : updated ((k', v) :: items) record = updated items (assign k' v record) := rfl
      rw [hstep, ih hnd.2, lookup_assign]
      by_cases hk : k = k'
      · subst hk
        simp [lookup, lookup_eq_none_iff.2 hnd.1]
      · simp [lookup, hk, Ne.symm hk]

theorem withReason_lookup {k : PyStr} (hk : k ≠ py "reason") (record : Mapping F) :
    lookup k (withReason record) = lookup k record := by
  unfold withReason
  split
  · rfl
  · rw [lookup_assign, if_neg hk]

theorem guardItems_nodup (sent : Bool) : (keys (guardItems sent : Mapping F)).Nodup := by
  simp only [keys, guardItems, List.map_cons, List.map_nil]
  decide

theorem failOpenItems_nodup (e : Exc) : (keys (failOpenItems e : Mapping F)).Nodup := by
  simp only [keys, failOpenItems, List.map_cons, List.map_nil]
  decide

/-- What the decision puts into the record. -/
theorem decisionItems_ok {d : Decision F} {finalAction : PyStr} {items : Mapping F}
    (h : decisionItems d finalAction = .ok items) :
    ∃ kvs risk status, d.analysis = .obj kvs ∧ items =
      [(py "requested_decision", .str d.requested), (py "final_action", .str finalAction),
        (py "kernel_response", .str (kernelResponse (responseValue finalAction))),
        (py "reason", .str d.reason), (py "score", (lookup (py "score") kvs).getD .null),
        (py "risk_score", risk), (py "indicators", (lookup (py "indicators") kvs).getD (.arr [])),
        (py "analysis_status", status)] := by
  unfold decisionItems at h
  cases ha : d.analysis with
  | obj kvs =>
      simp only [ha, fieldOrNone, getField, bind, Except.bind, Except.map] at h
      cases h
      exact ⟨kvs, _, _, rfl, rfl⟩
  | _ =>
      rw [ha] at h
      cases h

theorem decisionItems_nodup {d : Decision F} {finalAction : PyStr} {items : Mapping F}
    (h : decisionItems d finalAction = .ok items) : (keys items).Nodup := by
  obtain ⟨kvs, risk, status, -, rfl⟩ := decisionItems_ok h
  simp only [keys, List.map_cons, List.map_nil]
  decide

end Record

/-! ## The record and the correlation engine -/

section Truth

variable [Min T] [LT T] [DecidableLT T] {env : Env T} {q : AcceptedPolicy T}

/-- A record is registered as a denial exactly when its final action is one. -/
theorem registered_status {record : Mapping F} {e : Engine T F} {late : Bool}
    {state : ExecutionState T F}
    (h : (registerPreExecution env q record e).1 = .ok (.registered late state)) :
    state.status = .deniedPreExecution ↔
      upper (textOr record "final_action" (py "ALLOW")) = py "DENY" := by
  unfold registerPreExecution at h
  dsimp only at h
  split at h
  · cases h
  · split at h
    · cases h
    · split at h
      · cases h
      · next r hr =>
        have hdenied : r.denied = true ↔
            upper (textOr record "final_action" (py "ALLOW")) = py "DENY" := by
          unfold registrationOf at hr
          split at hr
          · cases hr
          · split at hr
            · cases hr
            · cases hr
              exact beq_iff_eq
        rw [← hdenied]
        dsimp only [bindRegistration] at h
        split at h
        · next s hs =>
          split at h
          · next hlate =>
            cases h
            rw [(recalculate_same ..).status]
            simp only [lateBind, Bool.and_eq_true, Bool.or_eq_true, decide_eq_true_eq] at hlate
            cases hd : r.denied with
            | true => simp [bindLate, hd]
            | false =>
                rcases hlate.1.2 with hst | hst <;> simp [bindLate, hd, hst]
          · cases h
            rw [newState_status]
            cases hd : r.denied <;> simp [Registration.newState, hd]
        · cases h
          rw [newState_status]
          cases hd : r.denied <;> simp [Registration.newState, hd]

/-- A record with a positive process id whose fields can be read is registered. -/
theorem registered_of_readable {record : Mapping F} {pid : Int} {r : Registration F}
    (hpid : pidOf record = .ok pid) (hpos : 0 < pid) (hr : registrationOf record = .ok r)
    (e : Engine T F) :
    ∃ late state, (registerPreExecution env q record e).1 = .ok (.registered late state) := by
  unfold registerPreExecution
  simp only [hpid, if_neg (not_le.2 hpos), hr, bindRegistration]
  split
  · split
    · exact ⟨true, _, rfl⟩
    · exact ⟨false, _, rfl⟩
  · exact ⟨false, _, rfl⟩

/-- The emitted record names the value passed to `respond`, and the correlation engine takes it for a
    denial only if the denial was written completely. -/
def RecordTrue (env : Env T) (q : AcceptedPolicy T) (p : FanotifyPolicy T) (w : World T F)
    (event : FanotifyEvent T) : Prop :=
  ∀ r ∈ (Py.final (handleEvent p w event) Frame.new).responses,
  ∀ record ∈ (Py.final (handleEvent p w event) Frame.new).emitted,
    lookup (py "kernel_response") record = some (.str (kernelResponse r.value)) ∧
    ∀ (e : Engine T F) (late : Bool) (state : ExecutionState T F),
      (registerPreExecution env q record e).1 = .ok (.registered late state) →
      state.status = .deniedPreExecution → r.value = fanDeny ∧ r.result = .ok true

/-- The correlation engine accepts a record with this analysis: there is a process id, and the score
    and the indicators can be read. -/
def Registrable (event : FanotifyEvent T) (analysis : Json F) : Prop :=
  0 < event.pid ∧ ∃ kvs, analysis = .obj kvs ∧
    (∃ n, scoreOf ((lookup (py "score") kvs).getD .null) = .ok n) ∧
    ∃ indicators, safeIndicators kvs = .ok indicators

/-- The fields of a record that ends with `response_ok`. -/
theorem answered_lookup {w : World T F} {event : FanotifyEvent T} {d : Decision F}
    {items : Mapping F} {finalAction : PyStr} (h : decisionItems d finalAction = .ok items)
    (sent : Bool) {k : PyStr} (hk : k ≠ py "response_ok") :
    lookup k (updated [(py "response_ok", .bool sent)] (updated items (baseRecord w event))) =
      (lookup k items).or (lookup k (baseRecord w event)) := by
  rw [lookup_updated (by simp [keys]), lookup_updated (decisionItems_nodup h)]
  simp [lookup, Ne.symm hk]

/-- What the correlation engine reads from such a record. -/
structure Reads (record : Mapping F) (event : FanotifyEvent T) (kvs : Mapping F)
    (finalAction : PyStr) : Prop where
  pid : pidOf record = .ok event.pid
  score : scoreField record = (lookup (py "score") kvs).getD .null
  indicators : safeIndicators record = safeIndicators kvs
  final : lookup (py "final_action") record = some (.str finalAction)
  kernel : lookup (py "kernel_response") record =
    some (.str (kernelResponse (responseValue finalAction)))

theorem answered_reads (w : World T F) (event : FanotifyEvent T) {d : Decision F}
    {items : Mapping F} {finalAction : PyStr} (h : decisionItems d finalAction = .ok items)
    (sent : Bool) :
    ∃ kvs, d.analysis = .obj kvs ∧
      Reads (updated [(py "response_ok", .bool sent)] (updated items (baseRecord w event))) event
        kvs finalAction := by
  generalize hrecord :
    updated [(py "response_ok", .bool sent)] (updated items (baseRecord w event)) = record
  have hlook : ∀ k, k ≠ py "response_ok" →
      lookup k record = (lookup k items).or (lookup k (baseRecord w event)) := by
    intro k hk
    rw [← hrecord]
    exact answered_lookup h sent hk
  obtain ⟨kvs, risk, status, hkvs, rfl⟩ := decisionItems_ok h
  refine ⟨kvs, hkvs, ?_, ?_, ?_, hlook (py "final_action") (by decide),
    hlook (py "kernel_response") (by decide)⟩
  · have htgid : lookup (py "tgid") record = none := hlook _ (by decide)
    have hpid : lookup (py "pid") record = some (.int event.pid) := hlook _ (by decide)
    by_cases hzero : event.pid = 0
    · simp [pidOf, getTruthy, htgid, hpid, Option.filter, truthy, hzero]
    · simp [pidOf, getTruthy, htgid, hpid, Option.filter, truthy, hzero, pyInt]
  · rw [scoreField, hlook _ (by decide)]
    rfl
  · have hlist : lookup (py "indicators") record =
        some ((lookup (py "indicators") kvs).getD (.arr [])) := hlook _ (by decide)
    unfold safeIndicators
    rw [hlist]
    cases lookup (py "indicators") kvs <;> rfl

theorem Reads.registered_iff {record : Mapping F} {event : FanotifyEvent T} {kvs : Mapping F}
    {finalAction : PyStr} (h : Reads record event kvs finalAction) (e : Engine T F) :
    (∃ late state, (registerPreExecution env q record e).1 = .ok (.registered late state)) ↔
      Registrable event (.obj kvs) := by
  constructor
  · rintro ⟨late, state, hreg⟩
    unfold registerPreExecution at hreg
    simp only [h.pid] at hreg
    split at hreg
    · cases hreg
    · next hpos =>
      refine ⟨not_le.1 hpos, kvs, rfl, ?_⟩
      unfold registrationOf at hreg
      rw [h.score, h.indicators] at hreg
      cases hscore : scoreOf ((lookup (py "score") kvs).getD .null) with
      | error x => rw [hscore] at hreg; cases hreg
      | ok n =>
          cases hind : safeIndicators kvs with
          | error x => rw [hscore, hind] at hreg; cases hreg
          | ok indicators => exact ⟨⟨n, rfl⟩, indicators, rfl⟩
  · rintro ⟨hpos, kvs', hkvs, ⟨n, hscore⟩, indicators, hind⟩
    cases hkvs
    have hread : ∃ r, registrationOf record = .ok r := by
      unfold registrationOf
      rw [h.score, h.indicators, hscore, hind]
      exact ⟨_, rfl⟩
    obtain ⟨r, hr⟩ := hread
    exact registered_of_readable h.pid hpos hr e

/-- The correlation engine takes a record for a denial when its final action says so. -/
theorem denied_iff {record : Mapping F} {e : Engine T F} {late : Bool}
    {state : ExecutionState T F} {finalAction : PyStr}
    (hfinal : lookup (py "final_action") record = some (.str finalAction))
    (h : (registerPreExecution env q record e).1 = .ok (.registered late state)) :
    state.status = .deniedPreExecution ↔ upper finalAction = py "DENY" := by
  have htext : textOr record "final_action" (py "ALLOW") = finalAction := by
    rw [textOr, hfinal]
    rfl
  rw [registered_status h, htext]

theorem getFinalAction_of_allow {w : World T F} {d : Decision F} (h : answerTo w d ≠ fanDeny) :
    getFinalAction w.finalMode d.requested = py "ALLOW" := by
  have hcases : getFinalAction w.finalMode d.requested = py "DENY" ∨
      getFinalAction w.finalMode d.requested = py "ALLOW" := by
    unfold getFinalAction
    split
    · exact .inr rfl
    · split
      · exact .inl rfl
      · exact .inr rfl
  refine hcases.resolve_left ?_
  intro hdeny
  exact h (by rw [answerTo, hdeny]; decide)

theorem getFinalAction_of_deny {w : World T F} {d : Decision F} (h : answerTo w d = fanDeny) :
    getFinalAction w.finalMode d.requested = py "DENY" := by
  unfold answerTo responseValue at h
  split at h
  · assumption
  · exact absurd h (by decide)

/-- The record of an event is true exactly when a denial is written completely: there is no decision
    that denies, or the kernel takes the whole response, or the denial is a short write that the
    correlation engine does not accept a record for. -/
theorem record_true_iff (env : Env T) (q : AcceptedPolicy T) (p : FanotifyPolicy T) (w : World T F)
    (event : FanotifyEvent T) :
    RecordTrue env q p w event ↔
      ∀ d items, Decides p w event d items → w.finalMode = .enforcement →
        d.requested = py "DENY" →
        respondResult w.groupFd (w.write 0) event.fd fanDeny = .ok true ∨
          respondResult w.groupFd (w.write 0) event.fd fanDeny = .ok false ∧
            ¬ Registrable event d.analysis := by
  have huniq : ∀ {d d' : Decision F} {items items' : Mapping F}, Decides p w event d items →
      Decides p w event d' items' → d' = d := fun h h' =>
    Except.ok.inj (h'.1.symm.trans h.1)
  have hdenies : ∀ {d : Decision F} {items : Mapping F}, Decides p w event d items →
      (answerTo w d = fanDeny ↔ w.finalMode = .enforcement ∧ d.requested = py "DENY") :=
    fun h => answerTo_deny h.1
  have hallowText : upper (py "ALLOW") ≠ py "DENY" := by decide
  unfold RecordTrue
  generalize Py.final (handleEvent p w event) Frame.new = s,
    handleEvent_handled p w event = hhandled
  cases hhandled with
  | guarded base result hno hrecord hresponses hemitted =>
      refine iff_of_true ?_ fun d items hdec => absurd hdec (hno d items)
      simp only [hresponses, hemitted, List.mem_singleton, forall_eq, hrecord]
      have hguard : ∀ k, k ≠ py "reason" →
          lookup k (withReason (updated (guardItems (sentOf result)) base)) =
            (lookup k (guardItems (sentOf result))).or (lookup k base) := by
        intro k hk
        rw [withReason_lookup hk, lookup_updated (guardItems_nodup _)]
      refine ⟨hguard (py "kernel_response") (by decide), ?_⟩
      intro e late state hreg hdenied
      exact absurd ((denied_iff (hguard (py "final_action") (by decide)) hreg).1 hdenied) hallowText
  | answered d items sent hdec hr hrecord hresponses hemitted =>
      simp only [hresponses, hemitted, List.mem_singleton, forall_eq, hrecord]
      obtain ⟨kvs, hkvs, hreads⟩ := answered_reads w event hdec.2 sent
      by_cases hdeny : answerTo w d = fanDeny
      · have hfinal := hreads.final
        rw [getFinalAction_of_deny hdeny] at hfinal
        rw [hdeny] at hr
        have hkernel := hreads.kernel
        rw [← answerTo, hdeny] at hkernel
        have hmode := (hdenies hdec).1 hdeny
        cases sent with
        | true =>
            refine iff_of_true ⟨?_, ?_⟩ ?_
            · rw [hdeny]
              exact hkernel
            · intro e late state _ _
              exact ⟨hdeny, rfl⟩
            · intro d' items' hdec' _ _
              exact .inl hr
        | false =>
            constructor
            · rintro ⟨-, htrue⟩ d' items' hdec' - -
              rw [huniq hdec hdec']
              refine .inr ⟨hr, ?_⟩
              intro hregistrable
              rw [hkvs] at hregistrable
              obtain ⟨late, state, hreg⟩ : ∃ late state, (registerPreExecution env q
                  (updated [(py "response_ok", .bool false)]
                    (updated items (baseRecord w event))) {}).1 = .ok (.registered late state) :=
                (hreads.registered_iff {}).2 hregistrable
              have hsent := (htrue {} late state hreg ((denied_iff hfinal hreg).2 (by decide))).2
              cases hsent
            · intro hcond
              rcases hcond d items hdec hmode.1 hmode.2 with hok | ⟨-, hnot⟩
              · rw [hr] at hok
                cases hok
              · refine ⟨by rw [hdeny]; exact hkernel, ?_⟩
                intro e late state hreg hdenied
                rw [hkvs] at hnot
                exact absurd ((hreads.registered_iff e).1 ⟨late, state, hreg⟩) hnot
      · have hfinal := hreads.final
        rw [getFinalAction_of_allow hdeny] at hfinal
        refine iff_of_true ⟨hreads.kernel, ?_⟩ ?_
        · intro e late state hreg hdenied
          exact absurd ((denied_iff hfinal hreg).1 hdenied) hallowText
        · intro d' items' hdec' hmode hreq
          rw [huniq hdec hdec'] at hreq
          exact absurd ((hdenies hdec).2 ⟨hmode, hreq⟩) hdeny
  | unanswered d items e hdec hr hrecord hresponses hemitted =>
      simp only [hresponses, hemitted, List.mem_singleton, forall_eq, hrecord]
      have hlook : ∀ k, lookup k (updated (failOpenItems e) (updated items (baseRecord w event))) =
          (lookup k (failOpenItems e)).or (lookup k (updated items (baseRecord w event))) :=
        fun k => lookup_updated (failOpenItems_nodup e) _
      have hkernel : lookup (py "kernel_response")
          (updated (failOpenItems e) (updated items (baseRecord w event))) =
            some (.str (py "FAN_ALLOW")) := hlook (py "kernel_response")
      by_cases hdeny : answerTo w d = fanDeny
      · -- the record says `FAN_ALLOW`, and `respond` was called with `FAN_DENY`
        rw [hdeny] at hr ⊢
        have hmode := (hdenies hdec).1 hdeny
        refine iff_of_false ?_ ?_
        · rintro ⟨hname, -⟩
          rw [hkernel, Option.some.injEq, Json.str.injEq] at hname
          exact absurd hname (by decide)
        · intro hcond
          rw [hr] at hcond
          rcases hcond d items hdec hmode.1 hmode.2 with hok | ⟨hok, -⟩ <;> cases hok
      · refine iff_of_true ⟨?_, ?_⟩ ?_
        · rw [hkernel, (answerTo_cases w d).resolve_left hdeny]
          rfl
        · intro e' late state hreg hdenied
          exact absurd ((denied_iff (hlook (py "final_action")) hreg).1 hdenied) hallowText
        · intro d' items' hdec' hmode hreq
          rw [huniq hdec hdec'] at hreq
          exact absurd ((hdenies hdec).2 ⟨hmode, hreq⟩) hdeny

end Truth

/-! ## A denial the kernel does not take -/

def tmpPolicy : FanotifyPolicy ℤ where
  defaultFailPolicy := .failOpen
  monitoredPaths := [py "/tmp"]
  excludedPaths := [py "/usr/bin"]
  failClosedPaths := [py "/tmp/closed"]
  maxResponseSeconds := 3
  maxPreexecFileBytes := 1000
  excludeDaemonDescendants := true

/-- A world in which the file is scored `DENY`, and a write to the group ends as given. -/
def denyingWorld (write : Except PyStr Nat) : World ℤ SampleFloat where
  daemonPid := 900
  groupFd := 3
  baseMode := .enforcement
  failureMode := .enforcement
  finalMode := .enforcement
  head := .ok [0x7f, 0x45, 0x4c, 0x46]
  procStatus _ _ := .ok [py "Name:\tsh\n", py "PPid:\t1\n"]
  cwd _ := .ok (py "/")
  fstat := .ok ⟨true, 64⟩
  submitClock := 0
  doneClock := 1
  analysis _ := .ok (.obj [(py "score", .int 90), (py "decision", .str (py "DENY")),
    (py "scoring_status", .str (py "OK")), (py "indicators", .arr [])])
  write _ := write
  audit _ := .ok ()

def tmpEvent : FanotifyEvent ℤ where
  fd := 5
  pid := 7
  path := some (py "/tmp/x")
  mask := fanOpenExecPerm
  receivedMonotonic := 0
  parseError := none

/-- When the write raises, the record says `FAN_ALLOW` for a `FAN_DENY`; when it is short, the
    correlation engine marks the process denied although the kernel has no answer. -/
theorem unwritten_denials :
    ¬ RecordTrue sampleEnv acceptedDefaultPolicy tmpPolicy (denyingWorld (.error (py "EPIPE")))
        tmpEvent ∧
      ¬ RecordTrue sampleEnv acceptedDefaultPolicy tmpPolicy (denyingWorld (.ok 4)) tmpEvent := by
  constructor
  · intro h
    have hname := (h _ (List.mem_cons_self ..) _ (List.mem_cons_self ..)).1
    exact absurd (congrArg (Option.map pyStr) hname) (by decide)
  · intro h
    have hdenied := (h _ (List.mem_cons_self ..) _ (List.mem_cons_self ..)).2 {} false _ rfl rfl
    exact absurd hdenied.2 (by decide)

end Elyra.Fanotify
