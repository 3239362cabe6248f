import Elyra.Response.Targets

set_option autoImplicit false
set_option linter.unusedSectionVars false

/-! # A destructive response runs at most once

`execute_recommendation` stores the rank of an action after its result has been recorded in the audit
log. An exception of the record, of `_result` (a score that is too large, a result that nests too deep),
or of the quarantine manager once it has moved the file leaves the rank as it was although the process is
dead or the file moved, and the next call for the correlation acts again. When no such exception strikes a
call that has completed its action, no later call with the same or a weaker action sends a signal or moves
a file. -/

namespace Elyra.Response

open Elyra.Python Elyra.Correlation

variable {F : Type}

/-! ## Terminating -/

/-- The process exits on the signals. -/
def exitsOn (h : Host F) (policy : ResponsePolicy) : Bool :=
  (h.sendSignal .sigterm).isNone &&
    (h.exits .sigterm ||
      policy.escalateToSigkill && (h.sendSignal .sigkill).isNone && h.exits .sigkill)

/-- With these answers `terminate` signals the process and sees it exit. -/
structure Killed (h : Host F) (policy : ResponsePolicy) (p : ProcessIdentity) : Prop where
  allowed : checkTermination h policy p = .ok ()
  opened : h.pidfdOpen p.pid = .opened
  same : checkIdentity h p = .ok ()
  exits : exitsOn h policy = true

/-- With these answers `terminate` returns. -/
def Cleared (h : Host F) (policy : ResponsePolicy) (p : ProcessIdentity) : Prop :=
  (checkTermination h policy p = .ok () ∧ h.pidfdOpen p.pid = .processLookupError) ∨
    Killed h policy p

def Frame.emits (f : Frame) (es : List Effect) : Frame := { f with effects := f.effects ++ es }

theorem Frame.emits_nil (f : Frame) : f.emits [] = f := by
  simp [Frame.emits]

theorem Frame.emit_emits (f : Frame) (e : Effect) (es : List Effect) :
    (f.emit e).emits es = f.emits (e :: es) := by
  simp [Frame.emits, Frame.emit]

/-- The statement only adds effects: `ok` says which when it returns a value, `err` when it raises. -/
def Adds {α : Type} (x : Py Frame α) (ok : α → List Effect → Prop) (err : List Effect → Prop) : Prop :=
  ∀ f, ∃ es, (∃ a, x f = .ok a (f.emits es) ∧ ok a es) ∨ (∃ e, x f = .error e (f.emits es) ∧ err es)

theorem Adds.raise {α : Type} {exc : Exc} {ok : α → List Effect → Prop} {err : List Effect → Prop}
    (h : err []) : Adds (raise exc : Py Frame α) ok err := by
  intro f
  exact ⟨[], .inr ⟨exc, by rw [f.emits_nil]; rfl, h⟩⟩

theorem Adds.return {α : Type} {a : α} {ok : α → List Effect → Prop} {err : List Effect → Prop}
    (h : ok a []) : Adds (pure a : Py Frame α) ok err := by
  intro f
  exact ⟨[], .inl ⟨a, by rw [f.emits_nil]; rfl, h⟩⟩

/-- An effect before the rest of a statement. -/
theorem Adds.emit {α : Type} {e : Effect} {x : Py Frame α} {ok : α → List Effect → Prop}
    {err : List Effect → Prop} (hx : Adds x (fun a es => ok a (e :: es)) (fun es => err (e :: es))) :
    Adds (do modify (·.emit e); x) ok err := by
  intro f
  obtain ⟨es, ⟨a, hrun, hok⟩ | ⟨exc, hrun, herr⟩⟩ := hx (f.emit e)
  · exact ⟨e :: es, .inl ⟨a, by rw [← f.emit_emits]; exact hrun, hok⟩⟩
  · exact ⟨e :: es, .inr ⟨exc, by rw [← f.emit_emits]; exact hrun, herr⟩⟩

theorem Adds.eval {α β : Type} {v : Except Exc α} {x : α → Py Frame β}
    {ok : β → List Effect → Prop} {err : List Effect → Prop}
    (hok : ∀ a, v = .ok a → Adds (x a) ok err) (herr : err []) : Adds (Py.eval v >>= x) ok err := by
  intro f
  cases hv : v with
  | ok a =>
      obtain ⟨es, hes⟩ := hok a hv f
      exact ⟨es, hes⟩
  | error e => exact ⟨[], .inr ⟨e, by rw [f.emits_nil]; rfl, herr⟩⟩

/-- No process exited and no file was moved. -/
def Harmless (es : List Effect) : Prop :=
  (∀ p, .terminated p ∉ es) ∧ ∀ file, .moved file ∉ es

theorem Harmless.nil : Harmless [] := ⟨fun _ => List.not_mem_nil, fun _ => List.not_mem_nil⟩

theorem Harmless.signalled {es : List Effect} (h : Harmless es) (p : ProcessIdentity)
    (s : Signal) : Harmless (.signalled p s :: es) := by
  constructor
  · intro q hq
    rcases List.mem_cons.1 hq with hq | hq
    · cases hq
    · exact h.1 q hq
  · intro file hfile
    rcases List.mem_cons.1 hfile with hfile | hfile
    · cases hfile
    · exact h.2 file hfile

/-- The effects of a termination that returned, and what it returned. -/
structure Ended (h : Host F) (policy : ResponsePolicy) (p : ProcessIdentity) (details : Mapping F)
    (es : List Effect) : Prop where
  flat : ∃ gone signal escalated, details = terminateDetails gone signal escalated
  cleared : Cleared h policy p
  killed : ∀ q, .terminated q ∈ es → Killed h policy p
  stays : ∀ file, .moved file ∉ es

theorem Adds.sendSignal {α : Type} {h : Host F} {p : ProcessIdentity} {s : Signal}
    {x : Py Frame α} {ok : α → List Effect → Prop} {err : List Effect → Prop}
    (hx : h.sendSignal s = none →
      Adds x (fun a es => ok a (.signalled p s :: es)) (fun es => err (.signalled p s :: es)))
    (herr : err []) : Adds (do sendSignal h p s; x) ok err := by
  unfold Response.sendSignal
  cases hs : h.sendSignal s with
  | none => exact Adds.emit (hx hs)
  | some exc =>
      intro f
      exact ⟨[], .inr ⟨exc, by rw [f.emits_nil]; rfl, herr⟩⟩

theorem signalProcess_adds {h : Host F} {policy : ResponsePolicy} {p : ProcessIdentity}
    (hallowed : checkTermination h policy p = .ok ()) (hopened : h.pidfdOpen p.pid = .opened)
    (hsame : checkIdentity h p = .ok ()) :
    Adds (signalProcess h policy p) (Ended h policy p) Harmless := by
  have hended : ∀ gone signal escalated es, (∀ file, Effect.moved file ∉ es) → exitsOn h policy = true →
      Ended h policy p (terminateDetails gone signal escalated) es := by
    intro gone signal escalated es hes hexits
    have hkilled : Killed h policy p := ⟨hallowed, hopened, hsame, hexits⟩
    exact ⟨⟨gone, signal, escalated, rfl⟩, .inr hkilled, fun _ _ => hkilled, hes⟩
  unfold signalProcess
  refine Adds.sendSignal (fun hterm => ?_) Harmless.nil
  by_cases hexit : h.exits .sigterm = true
  · rw [if_pos hexit]
    refine Adds.emit (Adds.return (hended _ _ _ _ (by simp) ?_))
    simp [exitsOn, hterm, hexit]
  · rw [if_neg hexit]
    by_cases hesc : policy.escalateToSigkill = false
    · rw [if_pos hesc]
      exact Adds.raise (Harmless.nil.signalled p .sigterm)
    · rw [if_neg hesc]
      refine Adds.sendSignal (fun hkill => ?_) (Harmless.nil.signalled p .sigterm)
      by_cases hexit' : h.exits .sigkill = true
      · rw [if_pos hexit']
        refine Adds.emit (Adds.return (hended _ _ _ _ (by simp) ?_))
        simp [exitsOn, hterm, hkill, hexit', hesc]
      · rw [if_neg hexit']
        exact Adds.raise ((Harmless.nil.signalled p .sigkill).signalled p .sigterm)

theorem terminate_adds (h : Host F) (policy : ResponsePolicy) (p : ProcessIdentity) :
    Adds (terminate h policy p) (Ended h policy p) Harmless := by
  unfold terminate
  refine Adds.eval (fun _ hallowed => ?_) Harmless.nil
  cases hopen : h.pidfdOpen p.pid with
  | processLookupError =>
      exact Adds.return ⟨⟨_, _, _, rfl⟩, .inl ⟨hallowed, hopen⟩, by simp, by simp⟩
  | osError text => exact Adds.raise Harmless.nil
  | opened => exact Adds.eval (fun _ hsame => signalProcess_adds hallowed hopen hsame) Harmless.nil

section Engine

variable [FloatNum F]

/-! ## Reporting -/

theorem resultOf_final (h : Host F) (state : Mapping F) (report : Report F) (f : Frame) :
    ∃ n, (resultOf h state report).final f = { f with audits := n } := by
  unfold resultOf Py.final
  simp only [bind, EStateM.bind, Py.eval, run_get, run_set, pure, EStateM.pure]
  cases h.readField state "correlation_id" with
  | error e => exact ⟨f.audits, rfl⟩
  | ok u =>
      cases result h.stamp state report with
      | error e => exact ⟨f.audits, rfl⟩
      | ok r =>
          simp only [Except.mapError]
          cases h.copy r with
          | error e => exact ⟨f.audits, rfl⟩
          | ok u =>
              cases ha : h.audit f.audits with
              | error e => exact ⟨f.audits + 1, by simp [ha]⟩
              | ok u => exact ⟨f.audits + 1, by simp [ha]⟩

theorem resultOf_keeps (h : Host F) (state : Mapping F) (report : Report F) {I : Frame → Prop}
    (hI : ∀ f n, I f → I { f with audits := n }) : Py.Keeps I (resultOf h state report) := by
  intro f hf
  obtain ⟨n, hn⟩ := resultOf_final h state report f
  rw [hn]
  exact hI f n hf

theorem result_ok {state : Mapping F} (stamp : Stamp F) (report : Report F) {k : Int}
    {n : Option Int} (hscore : score state = .ok k) (hpid : pid state = .ok n) :
    ∃ r, result stamp state report = .ok r ∧ r.status = report.status ∧
      r.triggeredRules = rules state ∧ r.details = report.details := by
  unfold result
  rw [hscore, hpid]
  exact ⟨_, rfl, rfl, rfl, rfl⟩

/-- The rules of the state, as they stand in a result. -/
def rulesValue (state : Mapping F) : Json F := .arr ((rules state).map Json.obj)

/-- A result nests as deep as its rules and its details. -/
theorem copy_ok {h : Host F} {r : ActionResult F}
    (hrules : (Json.arr (r.triggeredRules.map Json.obj)).depth < h.room)
    (hdetails : (Json.obj r.details).depth < h.room) : h.copy r = .ok () := by
  have hmembers : depthMembers r.toDict ≤ h.room - 1 := by
    rw [depthMembers_le, ActionResult.toDict]
    simp only [List.forall_mem_cons, List.not_mem_nil, false_implies, implies_true, and_true, depth_str,
      depth_float, depth_int, Nat.zero_le, true_and]
    refine ⟨?_, Nat.le_sub_one_of_lt hrules, ?_, ?_, Nat.le_sub_one_of_lt hdetails, ?_⟩
    · cases r.correlationId <;> exact Nat.zero_le _
    · cases r.pid <;> exact Nat.zero_le _
    · cases r.path <;> exact Nat.zero_le _
    · cases r.failureExplanation <;> exact Nat.zero_le _
  unfold Host.copy
  rw [if_neg]
  simp only [Json.depth] at hrules ⊢
  omega

/-- What the conversions and the audit record of a result need not to raise. -/
structure Reportable (h : Host F) (state : Mapping F) (details : Mapping F) : Prop where
  named : h.readField state "correlation_id" = .ok ()
  scored : ∃ n, score state = .ok n
  rules : (rulesValue state).depth < h.room
  details : (Json.obj details).depth < h.room
  audited : h.audit 0 = .ok ()

theorem resultOf_ok {h : Host F} {state : Mapping F} (report : Report F) {f : Frame}
    (hf : f.audits = 0) (hrec : Reportable h state report.details) {n : Option Int}
    (hpid : pid state = .ok n) :
    ∃ r, resultOf h state report f = .ok r { f with audits := 1 } ∧ r.status = report.status := by
  obtain ⟨k, hscore⟩ := hrec.scored
  obtain ⟨r, hr, hstatus, hrules, hdetails⟩ := result_ok h.stamp report hscore hpid
  have hcopy : h.copy r = .ok () := copy_ok (by rw [hrules]; exact hrec.rules)
    (by rw [hdetails]; exact hrec.details)
  refine ⟨r, ?_, hstatus⟩
  unfold resultOf
  simp only [hr, bind, EStateM.bind, Py.eval, run_get, run_set, pure, EStateM.pure, hf, hrec.audited,
    Except.mapError, hrec.named, hcopy]

theorem terminateDetails_depth (gone : Bool) (signal : Option PyStr) (escalated : Bool) :
    (Json.obj (terminateDetails gone signal escalated : Mapping F)).depth = 1 := by
  cases signal <;> rfl

/-! ## The effects of a call -/

/-- The binding a call for this state works on. -/
structure Bound (t : Tables) (state : Mapping F) (b : BoundTarget) : Prop where
  stored : t.bindings.get? (correlationId state) = some b
  pid : ∃ n, pid state = .ok n ∧ (b.pid = 0 ∨ b.pid = n.getD 0)

theorem bindingOf_cases (state : Mapping F) (f : Frame) :
    (∃ b, bindingOf state f = .ok b f ∧ Bound f.tables state b) ∨
      ∃ e, bindingOf state f = .error e f := by
  unfold bindingOf
  simp only [bind, EStateM.bind, run_get]
  cases hb : f.tables.bindings.get? (correlationId state) with
  | none => exact .inr ⟨_, rfl⟩
  | some b =>
      cases hp : pid state with
      | error e => exact .inr ⟨_, rfl⟩
      | ok n =>
          simp only [Except.mapError, EStateM.bind, Py.eval]
          by_cases hne : b.pid ≠ 0 ∧ b.pid ≠ n.getD 0
          · rw [if_pos hne]
            exact .inr ⟨_, rfl⟩
          · rw [if_neg hne]
            refine .inl ⟨b, rfl, hb, n, hp, ?_⟩
            by_cases h0 : b.pid = 0
            · exact .inl h0
            · exact .inr (not_not.1 fun h => hne ⟨h0, h⟩)

/-- The destructive action is complete: the process exited on the signals, or the file is moved. -/
def Completed (a : Action) (effects : List Effect) : Prop :=
  (a = .terminate ∧ ∃ p, .terminated p ∈ effects) ∨ (a = .quarantine ∧ ∃ file, .moved file ∈ effects)

/-- With these answers and this binding, a call completes the action. -/
inductive Strikes (h : Host F) (policy : ResponsePolicy) (t : Tables) (state : Mapping F) :
    Action → Prop where
  | terminate {b : BoundTarget} {p : ProcessIdentity}
      (enabled : policy.automaticRuntimeActions = true) (bound : Bound t state b)
      (process : b.process = some p) (killed : Killed h policy p) :
      Strikes h policy t state .terminate
  | quarantine {b : BoundTarget} {file : FileIdentity}
      (enabled : policy.automaticRuntimeActions = true) (bound : Bound t state b)
      (filed : b.file = some file) (free : protectedPath policy file.path = false)
      (cleared : ∀ p, b.process = some p → Cleared h policy p)
      (scored : ∃ n, score state = .ok n) (moved : (h.quarantineFile file).1 = true) :
      Strikes h policy t state .quarantine

/-- The result of a call that completes the action can be recorded: the conversions of `_result` and its
    audit record do not raise, the stack has room for the result, and the quarantine manager returns. -/
structure Recordable (h : Host F) (t : Tables) (state : Mapping F) (a : Action) : Prop where
  scored : ∃ n, score state = .ok n
  roomy : 3 ≤ h.room
  rules : (rulesValue state).depth < h.room
  filed : a = .quarantine → ∀ b file, Bound t state b → b.file = some file →
    ∃ record, (h.quarantineFile file).2 = .ok record ∧ (Json.obj record).depth + 2 ≤ h.room
  audited : h.audit 0 = .ok ()

theorem not_completed_nil (a : Action) : ¬ Completed a [] := by
  rintro (⟨-, p, hp⟩ | ⟨-, file, hfile⟩)
  · exact absurd hp List.not_mem_nil
  · exact absurd hfile List.not_mem_nil

theorem Harmless.not_completed {es : List Effect} (h : Harmless es) (a : Action) :
    ¬ Completed a es := by
  rintro (⟨-, p, hp⟩ | ⟨-, file, hfile⟩)
  · exact h.1 p hp
  · exact h.2 file hfile

/-- A handler that adds no effect leaves those of the body. -/
theorem effects_tryExcept {α : Type} {body : Py Frame α} {classes : List ExcClass}
    {handler : Exc → Py Frame α}
    (hhandler : ∀ e es, Py.Keeps (fun f => f.effects = es) (handler e)) (f : Frame) :
    ((Py.tryExcept body classes handler).final f).effects = (body.final f).effects := by
  cases hbody : body f with
  | ok a f' => rw [Py.final_tryExcept_of_ok hbody, Py.final_of_ok hbody]
  | error e f' =>
      rw [Py.final_tryExcept_of_error hbody, Py.final_of_error hbody]
      split
      · exact hhandler e _ f' rfl
      · rfl

theorem resultOf_effects (h : Host F) (state : Mapping F) (report : Report F) (es : List Effect) :
    Py.Keeps (fun f => f.effects = es) (resultOf h state report) :=
  resultOf_keeps h state report fun _ _ hf => hf

theorem releaseBinding_effects (id : PyStr) (es : List Effect) :
    Py.Keeps (fun f => f.effects = es) (releaseBinding id) :=
  Py.Keeps.of_modify fun _ hf => hf

/-- What a call that completed its action came to. -/
def Settles (h : Host F) (policy : ResponsePolicy) (state : Mapping F) (a : Action)
    (x : Py Frame (ActionResult F)) : Prop :=
  ∀ f : Frame, f.effects = [] → f.audits = 0 → Completed a (x.final f).effects →
    Strikes h policy f.tables state a ∧ (Recordable h f.tables state a →
      h.readField state "correlation_id" = .ok () → ∃ r f', x f = .ok r f' ∧ r.status = .succeeded)

theorem Settles.tryExcept {h : Host F} {policy : ResponsePolicy} {state : Mapping F} {a : Action}
    {body : Py Frame (ActionResult F)} {classes : List ExcClass}
    {handler : Exc → Py Frame (ActionResult F)} (hbody : Settles h policy state a body)
    (hhandler : ∀ e es, Py.Keeps (fun f => f.effects = es) (handler e)) :
    Settles h policy state a (Py.tryExcept body classes handler) := by
  intro f heffects haudits hcompleted
  rw [effects_tryExcept hhandler] at hcompleted
  obtain ⟨hstrikes, hok⟩ := hbody f heffects haudits hcompleted
  refine ⟨hstrikes, fun hrec hnamed => ?_⟩
  obtain ⟨r, f', hrun, hstatus⟩ := hok hrec hnamed
  exact ⟨r, f', Py.tryExcept_of_ok hrun, hstatus⟩

/-- A statement that raises without having added an effect. -/
theorem not_completed_of_error {α : Type} {x : Py Frame α} {f : Frame} {e : Exc}
    (hf : f.effects = []) (hx : x f = .error e f) (a : Action) :
    ¬ Completed a (x.final f).effects := by
  rw [Py.final_of_error hx, hf]
  exact not_completed_nil a

theorem executeTerminate_settles (h : Host F) {policy : ResponsePolicy}
    (hauto : policy.automaticRuntimeActions = true) (state : Mapping F) :
    Settles h policy state .terminate (executeTerminate h policy state) := by
  refine Settles.tryExcept ?_ fun e es => resultOf_effects h state _ es
  intro f heffects haudits hcompleted
  obtain ⟨b, hbinding, hbound⟩ | ⟨e, hbinding⟩ := bindingOf_cases state f
  · rw [Py.final_bind_of_ok hbinding] at hcompleted
    rw [Py.bind_of_ok hbinding]
    cases hp : b.process with
    | none =>
        rw [hp] at hcompleted
        exact absurd hcompleted (not_completed_of_error heffects rfl _)
    | some p =>
        rw [hp] at hcompleted
        dsimp only at hcompleted ⊢
        obtain ⟨es, ⟨d, hrun, hended⟩ | ⟨e, hrun, hharmless⟩⟩ := terminate_adds h policy p f
        · rw [Py.final_bind_of_ok hrun, resultOf_effects h state _ _ _ rfl] at hcompleted
          rw [Py.bind_of_ok hrun]
          obtain ⟨-, q, hq⟩ | ⟨h, -⟩ := hcompleted
          · rw [Frame.emits, heffects, List.nil_append] at hq
            refine ⟨.terminate hauto hbound hp (hended.killed q hq), fun hrec hnamed => ?_⟩
            obtain ⟨n, hn, -⟩ := hbound.pid
            obtain ⟨gone, signal, escalated, rfl⟩ := hended.flat
            have hdepth : (Json.obj ((py "process_identity", (Json.obj p.toDict : Json F)) ::
                terminateDetails gone signal escalated)).depth = 2 := by
              cases signal <;> rfl
            have hreport : Reportable h state ((py "process_identity", .obj p.toDict) ::
                terminateDetails gone signal escalated) :=
              ⟨hnamed, hrec.scored, hrec.rules, by rw [hdepth]; exact hrec.roomy, hrec.audited⟩
            obtain ⟨r, hr, hstatus⟩ := resultOf_ok
              { requested := recommendation state
                executed := Action.terminate.text
                status := .succeeded
                reason := py "The correlation-bound process was terminated using a pidfd"
                details := (py "process_identity", .obj p.toDict) ::
                  terminateDetails gone signal escalated }
              (f := f.emits es) haudits hreport hn
            exact ⟨r, _, hr, hstatus⟩
          · cases h
        · rw [Py.final_of_error (Py.bind_of_error hrun)] at hcompleted
          simp only [Frame.emits, heffects, List.nil_append] at hcompleted
          exact absurd hcompleted (hharmless.not_completed _)
  · exact absurd hcompleted (not_completed_of_error heffects (Py.bind_of_error hbinding) _)

theorem terminateFirst_adds (h : Host F) (policy : ResponsePolicy)
    (process : Option ProcessIdentity) :
    Adds (terminateFirst h policy process)
      (fun termination es => termination.depth ≤ 1 ∧ (∀ p, process = some p → Cleared h policy p) ∧
        ∀ file, .moved file ∉ es)
      Harmless := by
  cases process with
  | none => exact Adds.return ⟨Nat.zero_le 1, by simp, by simp⟩
  | some p =>
      intro f
      obtain ⟨es, ⟨d, hrun, hended⟩ | ⟨e, hrun, hharmless⟩⟩ := terminate_adds h policy p f
      · obtain ⟨gone, signal, escalated, rfl⟩ := hended.flat
        refine ⟨es, .inl ⟨_, Py.bind_of_ok hrun, (terminateDetails_depth ..).le, ?_, hended.stays⟩⟩
        rintro q hq
        cases hq
        exact hended.cleared
      · exact ⟨es, .inr ⟨e, Py.bind_of_error hrun, hharmless⟩⟩

/-- What the quarantine manager does to the outside. -/
def movesOf (h : Host F) (file : FileIdentity) : List Effect :=
  if (h.quarantineFile file).1 then [.moved file] else []

/-- The manager is not called, or the call ends as it does. -/
theorem quarantineBound_cases (h : Host F) (state : Mapping F) (file : FileIdentity) (f : Frame) :
    (∃ e, quarantineBound h state file f = .error e f) ∨
      (∃ n, score state = .ok n) ∧
        quarantineBound h state file f = Py.eval (h.quarantineFile file).2 (f.emits (movesOf h file)) := by
  unfold quarantineBound movesOf
  cases hs : score state with
  | error e => exact .inl ⟨_, rfl⟩
  | ok n =>
      refine .inr ⟨⟨n, rfl⟩, ?_⟩
      cases hmoved : (h.quarantineFile file).1 with
      | false =>
          rw [if_neg Bool.false_ne_true, f.emits_nil]
          simp [bind, EStateM.bind, Py.eval, Except.mapError, hmoved]
      | true =>
          rw [if_pos rfl]
          have hemit : (modify fun k => k.emit (.moved file) : Py Frame PUnit) f =
              .ok ⟨⟩ (f.emits [.moved file]) := rfl
          simp [bind, EStateM.bind, Py.eval, Except.mapError, hmoved, hemit]

theorem quarantineBound_adds (h : Host F) (state : Mapping F) (file : FileIdentity) :
    Adds (quarantineBound h state file) (fun _ _ => True) (fun _ => True) := by
  intro f
  rcases quarantineBound_cases h state file f with ⟨e, hrun⟩ | ⟨-, hrun⟩
  · exact ⟨[], .inr ⟨e, by rw [f.emits_nil]; exact hrun, trivial⟩⟩
  · refine ⟨movesOf h file, ?_⟩
    rw [hrun]
    cases (h.quarantineFile file).2 with
    | ok record => exact .inl ⟨record, rfl, trivial⟩
    | error e => exact .inr ⟨e, rfl, trivial⟩

/-- What a statement leaves, if what comes after it adds no effect. -/
theorem effects_bind {α β : Type} {x : Py Frame α} {g : α → Py Frame β} {v : Except Exc α} {f f' : Frame}
    (hx : x f = Py.eval v f') (hg : ∀ a, Py.Keeps (fun k => k.effects = f'.effects) (g a)) :
    ((x >>= g).final f).effects = f'.effects := by
  cases v with
  | ok a =>
      rw [Py.final_bind_of_ok hx]
      exact hg a f' rfl
  | error e => rw [Py.final_of_error (Py.bind_of_error hx)]

theorem moved_of_mem {h : Host F} {file moved : FileIdentity} (hmem : .moved moved ∈ movesOf h file) :
    (h.quarantineFile file).1 = true := by
  unfold movesOf at hmem
  split at hmem
  · next hmoved => exact hmoved
  · cases hmem

/-- A result, after which the binding is released. -/
theorem released_effects (h : Host F) (state : Mapping F) (report : Report F) (id : PyStr)
    (es : List Effect) : Py.Keeps (fun f => f.effects = es)
      (do
        let r ← resultOf h state report
        releaseBinding id
        return r) :=
  (resultOf_effects h state report es).bind fun r =>
    (releaseBinding_effects id es).bind fun _ => Py.Keeps.of_pure r

/-- A call that completes the quarantine has called the manager, and it has moved the file. -/
theorem moves_of_completed {h : Host F} {state : Mapping F} {file : FileIdentity}
    {report : Mapping F → Report F} {id : PyStr} {f : Frame} (hstays : ∀ moved, .moved moved ∉ f.effects)
    (hcompleted : Completed .quarantine ((do
      let record ← quarantineBound h state file
      let r ← resultOf h state (report record)
      releaseBinding id
      return r : Py Frame (ActionResult F)).final f).effects) :
    (∃ n, score state = .ok n) ∧ (h.quarantineFile file).1 = true ∧
      quarantineBound h state file f = Py.eval (h.quarantineFile file).2 (f.emits (movesOf h file)) := by
  rcases quarantineBound_cases h state file f with ⟨e, hmove⟩ | ⟨hscored, hmove⟩
  · rw [Py.final_of_error (Py.bind_of_error hmove)] at hcompleted
    obtain ⟨h, -⟩ | ⟨-, moved, hmoved⟩ := hcompleted
    · cases h
    · exact absurd hmoved (hstays moved)
  · refine ⟨hscored, ?_, hmove⟩
    obtain ⟨h, -⟩ | ⟨-, moved, hmem⟩ := hcompleted
    · cases h
    · rw [effects_bind hmove fun _ => released_effects h state _ _ _, Frame.emits, List.mem_append] at hmem
      exact moved_of_mem (hmem.resolve_left (hstays moved))

/-- The record that the manager returns is reported. -/
theorem reported_of_moved {h : Host F} {state record : Mapping F} {file : FileIdentity}
    {report : Mapping F → Report F} {id : PyStr} {f f' : Frame} {n : Option Int}
    (hmove : quarantineBound h state file f = .ok record f') (haudits : f'.audits = 0)
    (hrec : Reportable h state (report record).details) (hpid : pid state = .ok n) :
    ∃ r f'', (do
      let record ← quarantineBound h state file
      let r ← resultOf h state (report record)
      releaseBinding id
      return r : Py Frame (ActionResult F)) f = .ok r f'' ∧ r.status = (report record).status := by
  obtain ⟨r, hr, hstatus⟩ := resultOf_ok (report record) haudits hrec hpid
  rw [Py.bind_of_ok hmove]
  exact ⟨r, _, Py.bind_of_ok hr, hstatus⟩

theorem executeQuarantine_settles (h : Host F) {policy : ResponsePolicy}
    (hauto : policy.automaticRuntimeActions = true) (state : Mapping F) :
    Settles h policy state .quarantine (executeQuarantine h policy state) := by
  refine Settles.tryExcept ?_ fun e es => released_effects h state _ _ es
  · intro f heffects haudits hcompleted
    obtain ⟨b, hbinding, hbound⟩ | ⟨e, hbinding⟩ := bindingOf_cases state f
    · rw [Py.final_bind_of_ok hbinding] at hcompleted
      rw [Py.bind_of_ok hbinding]
      cases hfile : b.file with
      | none =>
          rw [hfile] at hcompleted
          exact absurd hcompleted (not_completed_of_error heffects rfl _)
      | some file =>
          rw [hfile] at hcompleted
          dsimp only at hcompleted ⊢
          by_cases hfree : protectedPath policy file.path = true
          · rw [if_pos hfree] at hcompleted
            exact absurd hcompleted (not_completed_of_error heffects rfl _)
          · rw [if_neg hfree] at hcompleted ⊢
            obtain ⟨es, ⟨d, hrun, hflat, hcleared, hstays⟩ | ⟨e, hrun, hharmless⟩⟩ :=
              terminateFirst_adds h policy b.process f
            · rw [Py.final_bind_of_ok hrun] at hcompleted
              rw [Py.bind_of_ok hrun]
              have heffect : (f.emits es).effects = es := by simp [Frame.emits, heffects]
              obtain ⟨hscored, hmoved, hmove⟩ := moves_of_completed (heffect.symm ▸ hstays) hcompleted
              refine ⟨.quarantine hauto hbound hfile (by simpa using hfree) hcleared hscored hmoved,
                fun hrec hnamed => ?_⟩
              obtain ⟨record, hrecord, hdepth⟩ := hrec.filed rfl b file hbound hfile
              rw [hrecord] at hmove
              obtain ⟨n, hn, -⟩ := hbound.pid
              have hdetails : (Json.obj [(py "termination", d),
                  (py "quarantine_record", .obj record)]).depth < h.room := by
                have hroomy := hrec.roomy
                simp only [Json.depth, depthMembers] at hdepth ⊢
                omega
              exact reported_of_moved hmove haudits
                ⟨hnamed, hrec.scored, hrec.rules, hdetails, hrec.audited⟩ hn
            · rw [Py.final_of_error (Py.bind_of_error hrun)] at hcompleted
              simp only [Frame.emits, heffects, List.nil_append] at hcompleted
              exact absurd hcompleted (hharmless.not_completed _)
    · exact absurd hcompleted
        (not_completed_of_error heffects (Py.bind_of_error hbinding) _)

theorem Settles.of_kept {x : Py Frame (ActionResult F)}
    (hx : ∀ es, Py.Keeps (fun f => f.effects = es) x) {h : Host F} {policy : ResponsePolicy}
    {state : Mapping F} {a : Action} : Settles h policy state a x := by
  intro f heffects _ hcompleted
  rw [hx [] f heffects] at hcompleted
  exact absurd hcompleted (not_completed_nil a)

theorem reporting_effects (h : Host F) (state : Mapping F) (v : Except Exc (Report F))
    (es : List Effect) :
    Py.Keeps (fun f : Frame => f.effects = es)
      (do let report ← Py.eval v; resultOf h state report) :=
  (Py.Keeps.eval v).bind fun report => resultOf_effects h state report es

theorem perform_settles (h : Host F) (policy : ResponsePolicy) (state : Mapping F) (a : Action) :
    Settles h policy state a (perform h policy state a) := by
  unfold perform
  cases a with
  | terminate =>
      dsimp only
      by_cases hauto : policy.automaticRuntimeActions = true
      · rw [if_pos hauto]
        exact executeTerminate_settles h hauto state
      · rw [if_neg hauto]
        exact Settles.of_kept (reporting_effects h state _)
  | quarantine =>
      dsimp only
      by_cases hauto : policy.automaticRuntimeActions = true
      · rw [if_pos hauto]
        exact executeQuarantine_settles h hauto state
      · rw [if_neg hauto]
        exact Settles.of_kept (reporting_effects h state _)
  | allow => exact Settles.of_kept (reporting_effects h state _)
  | allowMonitor => exact Settles.of_kept (reporting_effects h state _)
  | warn => exact Settles.of_kept (reporting_effects h state _)
  | deny =>
      exact Settles.of_kept fun es => (Py.Keeps.eval _).bind fun _ => reporting_effects h state _ es

/-! ## The executed ranks -/

theorem Adds.keeps {α : Type} {x : Py Frame α} {ok : α → List Effect → Prop}
    {err : List Effect → Prop} {I : Frame → Prop}
    (hx : Adds x ok err) (hI : ∀ f es, I f → I (f.emits es)) : Py.Keeps I x := by
  intro f hf
  obtain ⟨es, ⟨a, hrun, -⟩ | ⟨e, hrun, -⟩⟩ := hx f
  · rw [Py.final_of_ok hrun]
    exact hI f es hf
  · rw [Py.final_of_error hrun]
    exact hI f es hf

theorem bindingOf_keeps (state : Mapping F) (I : Frame → Prop) : Py.Keeps I (bindingOf state) := by
  intro f hf
  obtain ⟨b, hrun, -⟩ | ⟨e, hrun⟩ := bindingOf_cases state f
  · rw [Py.final_of_ok hrun]
    exact hf
  · rw [Py.final_of_error hrun]
    exact hf

/-- An invariant of the tables that `release_binding` keeps. -/
theorem perform_keeps (h : Host F) (policy : ResponsePolicy) (state : Mapping F) (a : Action)
    {I : Tables → Prop}
    (hI : ∀ t, I t → I { t with bindings := t.bindings.pop (correlationId state) }) :
    Py.Keeps (fun f => I f.tables) (perform h policy state a) := by
  have hreport : ∀ report, Py.Keeps (fun f : Frame => I f.tables) (resultOf h state report) :=
    fun report => resultOf_keeps h state report fun _ _ hf => hf
  have hrelease : Py.Keeps (fun f : Frame => I f.tables) (releaseBinding (correlationId state)) :=
    Py.Keeps.of_modify fun f hf => hI f.tables hf
  have hreporting : ∀ v, Py.Keeps (fun f : Frame => I f.tables)
      (do let report ← Py.eval v; resultOf h state report) :=
    fun v => (Py.Keeps.eval v).bind hreport
  have hterminate : Py.Keeps (fun f : Frame => I f.tables) (executeTerminate h policy state) := by
    refine Py.Keeps.tryExcept ((bindingOf_keeps state _).bind fun b => ?_) fun e => hreport _
    cases b.process with
    | none => exact Py.Keeps.eval _
    | some p =>
        exact ((terminate_adds h policy p).keeps fun _ _ hf => hf).bind fun d => hreport _
  have hquarantine : Py.Keeps (fun f : Frame => I f.tables) (executeQuarantine h policy state) := by
    refine Py.Keeps.tryExcept ((bindingOf_keeps state _).bind fun b => ?_) fun e =>
      (hreport _).bind fun r => hrelease.bind fun _ => Py.Keeps.of_pure r
    cases b.file with
    | none => exact Py.Keeps.eval _
    | some file =>
        dsimp only
        split
        · exact Py.Keeps.eval _
        · refine ((terminateFirst_adds h policy b.process).keeps fun _ _ hf => hf).bind fun d => ?_
          refine ((quarantineBound_adds h state file).keeps fun _ _ hf => hf).bind fun record => ?_
          exact (hreport _).bind fun r => hrelease.bind fun _ => Py.Keeps.of_pure r
  unfold perform
  cases a with
  | terminate =>
      dsimp only
      split
      · exact hterminate
      · exact hreporting _
  | quarantine =>
      dsimp only
      split
      · exact hquarantine
      · exact hreporting _
  | allow => exact hreporting _
  | allowMonitor => exact hreporting _
  | warn => exact hreporting _
  | deny => exact (Py.Keeps.eval _).bind fun _ => hreporting _

/-- What `execute_recommendation` comes to. -/
theorem executeRecommendation_cases (h : Host F) (policy : ResponsePolicy) (state : Mapping F)
    (f : Frame) :
    (executeRecommendation h policy state).final f = f ∨
    (∃ report, enter state f.tables.ranks = .answered report ∧
        (executeRecommendation h policy state).final f = (resultOf h state report).final f) ∨
      ∃ a previous, enter state f.tables.ranks = .acting a previous ∧ h.readTexts state = .ok () ∧
        ((∃ e g, perform h policy state a f = .error e g ∧
            (executeRecommendation h policy state).final f = g) ∨
          ∃ r g, perform h policy state a f = .ok r g ∧
            (executeRecommendation h policy state).final f =
              g.setRanks (commit state a previous r.status g.tables.ranks)) := by
  have hget : (get : Py Frame Frame) f = .ok f f := rfl
  unfold executeRecommendation
  cases hread : h.readTexts state with
  | error e => exact .inl (Py.final_of_error (Py.bind_of_error rfl))
  | ok u =>
  have hok : Py.eval (Except.ok u : Except Exc Unit) f = .ok u f := rfl
  rw [Py.final_bind_of_ok hok, Py.final_bind_of_ok hget]
  cases enter state f.tables.ranks with
  | answered report => exact .inr (.inl ⟨report, rfl, rfl⟩)
  | acting a previous =>
      refine .inr (.inr ⟨a, previous, rfl, rfl, ?_⟩)
      cases hrun : perform h policy state a f with
      | error e g => exact .inl ⟨e, g, rfl, Py.final_of_error (Py.bind_of_error hrun)⟩
      | ok r g => exact .inr ⟨r, g, rfl, Py.final_bind_of_ok hrun⟩

theorem enter_acting {state : Mapping F} {ranks : Ranks} {a : Action} {previous : Int}
    (h : enter state ranks = .acting a previous) :
    action state = some a ∧ previous = ranks.of (correlationId state) ∧
      (correlationId state ≠ [] → ranks.of (correlationId state) < a.rank) := by
  unfold enter at h
  cases ha : action state with
  | none =>
      rw [ha] at h
      cases h
  | some b =>
      rw [ha] at h
      dsimp only at h
      split at h
      · cases h
      · rename_i hrank
        cases h
        exact ⟨rfl, rfl, fun hid => not_le.1 fun hle => hrank ⟨hid, hle⟩⟩

/-- A call that acts has read the identifier. -/
theorem readField_of_readTexts {h : Host F} {state : Mapping F} {a : Action} (ha : action state = some a)
    (hread : h.readTexts state = .ok ()) : h.readField state "correlation_id" = .ok () := by
  unfold Host.readTexts at hread
  rw [ha] at hread
  cases hfield : h.readField state "recommended_action" with
  | error e =>
      rw [hfield] at hread
      cases hread
  | ok u =>
      rw [hfield] at hread
      exact hread

theorem perform_ranks (h : Host F) (policy : ResponsePolicy) (state : Mapping F) (a : Action)
    (f : Frame) : ((perform h policy state a).final f).tables.ranks = f.tables.ranks :=
  perform_keeps h policy state a (I := fun t => t.ranks = f.tables.ranks) (fun _ ht => ht) f rfl

/-- The rank of a correlation never falls. -/
theorem executeRecommendation_ranks (h : Host F) (policy : ResponsePolicy) (state : Mapping F)
    (f : Frame) (id : PyStr) :
    f.tables.ranks.of id ≤ ((executeRecommendation h policy state).final f).tables.ranks.of id := by
  obtain hfinal | ⟨report, -, hfinal⟩ |
      ⟨a, previous, henter, -, ⟨e, g, hrun, hfinal⟩ | ⟨r, g, hrun, hfinal⟩⟩ :=
    executeRecommendation_cases h policy state f
  · rw [hfinal]
  · obtain ⟨n, hn⟩ := resultOf_final h state report f
    rw [hfinal, hn]
  · have hkept := perform_ranks h policy state a f
    rw [Py.final_of_error hrun] at hkept
    rw [hfinal, hkept]
  · have hkept := perform_ranks h policy state a f
    rw [Py.final_of_ok hrun] at hkept
    obtain ⟨-, rfl, -⟩ := enter_acting henter
    rw [hfinal]
    show _ ≤ (commit state a _ r.status g.tables.ranks).of id
    rw [hkept, commit]
    split
    · rw [Ranks.of_set]
      split
      · rename_i hid
        rw [hid]
        exact le_max_left _ _
      · exact le_refl _
    · exact le_refl _

/-- A call that an executed rank covers adds no effect. -/
theorem executeRecommendation_covered (h : Host F) (policy : ResponsePolicy) {state : Mapping F}
    {f : Frame} {a : Action} (ha : action state = some a) (hid : correlationId state ≠ [])
    (hrank : a.rank ≤ f.tables.ranks.of (correlationId state)) :
    ((executeRecommendation h policy state).final f).effects = f.effects := by
  obtain hfinal | ⟨report, -, hfinal⟩ | ⟨b, previous, henter, -⟩ :=
    executeRecommendation_cases h policy state f
  · rw [hfinal]
  · rw [hfinal]
    exact resultOf_effects h state report _ f rfl
  · obtain ⟨hb, -, hlow⟩ := enter_acting henter
    rw [ha] at hb
    cases hb
    exact absurd hrank (not_le.2 (hlow hid))

/-- A call that completes its action had the answers for it, and stores the rank if its result is
    recorded. -/
theorem executeRecommendation_completed (h : Host F) (policy : ResponsePolicy) {state : Mapping F}
    {f : Frame} {a : Action} (heffects : f.effects = []) (haudits : f.audits = 0)
    (ha : action state = some a)
    (hcompleted : Completed a ((executeRecommendation h policy state).final f).effects) :
    Strikes h policy f.tables state a ∧
      (correlationId state ≠ [] → f.tables.ranks.of (correlationId state) < a.rank ∧
        (Recordable h f.tables state a → a.rank ≤
          ((executeRecommendation h policy state).final f).tables.ranks.of
            (correlationId state))) := by
  obtain hfinal | ⟨report, -, hfinal⟩ | ⟨b, previous, henter, hread, hcases⟩ :=
    executeRecommendation_cases h policy state f
  · rw [hfinal, heffects] at hcompleted
    exact absurd hcompleted (not_completed_nil a)
  · rw [hfinal, resultOf_effects h state report [] f heffects] at hcompleted
    exact absurd hcompleted (not_completed_nil a)
  · obtain ⟨hb, rfl, hlow⟩ := enter_acting henter
    rw [ha] at hb
    cases hb
    have hsettles := perform_settles h policy state a f heffects haudits
    have hnamed := readField_of_readTexts ha hread
    obtain ⟨e, g, hrun, hfinal⟩ | ⟨r, g, hrun, hfinal⟩ := hcases
    · rw [hfinal] at hcompleted
      rw [Py.final_of_error hrun] at hsettles
      obtain ⟨hstrikes, hok⟩ := hsettles hcompleted
      refine ⟨hstrikes, fun hid => ⟨hlow hid, fun hrec => ?_⟩⟩
      obtain ⟨r, f', hreturned, -⟩ := hok hrec hnamed
      rw [hrun] at hreturned
      cases hreturned
    · rw [hfinal] at hcompleted
      rw [Py.final_of_ok hrun] at hsettles
      obtain ⟨hstrikes, hok⟩ := hsettles hcompleted
      refine ⟨hstrikes, fun hid => ⟨hlow hid, fun hrec => ?_⟩⟩
      obtain ⟨r', f', hreturned, hstatus⟩ := hok hrec hnamed
      rw [hrun] at hreturned
      cases hreturned
      rw [hfinal]
      show _ ≤ (commit state a _ r.status g.tables.ranks).of _
      rw [commit, if_pos ⟨hid, hstatus⟩, Ranks.of_set, if_pos rfl]
      exact le_max_right _ _

/-- An invariant of the bindings that `release_binding` keeps. -/
theorem executeRecommendation_bindings (h : Host F) (policy : ResponsePolicy) (state : Mapping F)
    {I : Dict PyStr BoundTarget → Prop} (hI : ∀ d, I d → I (d.pop (correlationId state))) :
    Py.Keeps (fun f => I f.tables.bindings) (executeRecommendation h policy state) := by
  intro f hf
  obtain hfinal | ⟨report, -, hfinal⟩ | ⟨a, previous, -, -, hcases⟩ :=
    executeRecommendation_cases h policy state f
  · rw [hfinal]
    exact hf
  · obtain ⟨n, hn⟩ := resultOf_final h state report f
    rw [hfinal, hn]
    exact hf
  · have hkept := perform_keeps h policy state a (I := fun t => I t.bindings)
      (fun t ht => hI t.bindings ht) f hf
    obtain ⟨e, g, hrun, hfinal⟩ | ⟨r, g, hrun, hfinal⟩ := hcases
    · rw [Py.final_of_error hrun] at hkept
      rw [hfinal]
      exact hkept
    · rw [Py.final_of_ok hrun] at hkept
      rw [hfinal]
      exact hkept

/-! ## Binding -/

theorem evict_keeps {I : Tables → Prop}
    (hpop : ∀ t id, I t → I { t with bindings := t.bindings.pop id }) (fuel : Nat) {f : Frame}
    (hf : I f.tables) : I (evict fuel f).tables := by
  induction fuel generalizing f with
  | zero => exact hf
  | succ fuel ih =>
      unfold evict
      split
      · exact hf
      · split
        · exact hf
        · exact ih (hpop _ _ hf)

/-- An invariant of the tables that taking a binding out and storing one keep. -/
theorem bindState_keeps (h : Host F) (state : Mapping F) {I : Tables → Prop}
    (hpop : ∀ t id, I t → I { t with bindings := t.bindings.pop id })
    (hset : ∀ t b, correlationId state ≠ [] → I t →
      I { t with bindings := t.bindings.set (correlationId state) b }) :
    Py.Keeps (fun f => I f.tables) (bindState h state) := by
  unfold bindState
  refine (Py.Keeps.eval _).bind fun _ => ?_
  split
  · exact Py.Keeps.eval _
  · rename_i hid
    refine (Py.Keeps.eval _).bind fun n => ?_
    dsimp only
    split
    · exact Py.Keeps.eval _
    · refine Py.Keeps.of_modify fun f hf => ?_
      exact hset _ _ hid (evict_keeps hpop _ (hpop _ _ hf))

/-! ## Runs -/

/-- A call of the engine, with what it meets. -/
inductive Request (F : Type) where
  | bind (h : Host F) (state : Mapping F)
  | execute (h : Host F) (state : Mapping F)

/-- The frame a request leaves, whether it returns or raises. -/
def Request.frame (policy : ResponsePolicy) (t : Tables) : Request F → Frame
  | .bind h state => (bindState h state).final { tables := t }
  | .execute h state => (executeRecommendation h policy state).final { tables := t }

/-- The tables of a new engine after these requests. -/
def afterRequests (policy : ResponsePolicy) (rs : List (Request F)) : Tables :=
  rs.foldl (fun t r => (r.frame policy t).tables) {}

/-- What a request does to the outside, after those before it. -/
def effectsOf (policy : ResponsePolicy) (before : List (Request F)) (r : Request F) : List Effect :=
  (r.frame policy (afterRequests policy before)).effects

/-- After a call has completed its action, no later call for the correlation with the same or a
    weaker action sends a signal or moves a file. -/
def AtMostOnce (policy : ResponsePolicy) (rs : List (Request F)) : Prop :=
  ∀ (before mid : List (Request F)) (h h' : Host F) (state state' : Mapping F) (a a' : Action),
    before ++ .execute h state :: mid ++ [.execute h' state'] <+: rs →
    correlationId state' = correlationId state → action state = some a →
    action state' = some a' → a'.rank ≤ a.rank →
    Completed a (effectsOf policy before (.execute h state)) →
    effectsOf policy (before ++ .execute h state :: mid) (.execute h' state') = []

/-- If the call completes its action, its result can be recorded. -/
def Request.Recorded (policy : ResponsePolicy) (t : Tables) : Request F → Prop
  | .bind _ _ => True
  | .execute h state => ∀ a, action state = some a →
      t.ranks.of (correlationId state) < a.rank → Strikes h policy t state a → Recordable h t state a

theorem afterRequests_concat (policy : ResponsePolicy) (rs : List (Request F)) (r : Request F) :
    afterRequests policy (rs ++ [r]) = (r.frame policy (afterRequests policy rs)).tables := by
  rw [afterRequests, List.foldl_append]
  rfl

theorem Request.ranks_le (policy : ResponsePolicy) (t : Tables) (r : Request F) (id : PyStr) :
    t.ranks.of id ≤ (r.frame policy t).tables.ranks.of id := by
  cases r with
  | bind h state =>
      have hkept := bindState_keeps h state (I := fun t' => t'.ranks = t.ranks)
        (fun _ _ ht => ht) (fun _ _ _ ht => ht) { tables := t } rfl
      exact (congrArg (fun ranks : Ranks => ranks.of id) hkept).ge
  | execute h state => exact executeRecommendation_ranks h policy state { tables := t } id

theorem ranks_le_append (policy : ResponsePolicy) (rs rest : List (Request F)) (id : PyStr) :
    (afterRequests policy rs).ranks.of id ≤ (afterRequests policy (rs ++ rest)).ranks.of id := by
  induction rest using List.reverseRecOn with
  | nil => rw [List.append_nil]
  | append_singleton rest r ih =>
      rw [← List.append_assoc, afterRequests_concat]
      exact ih.trans (r.ranks_le policy _ id)

/-- No binding is stored without a correlation. -/
theorem afterRequests_keyed (policy : ResponsePolicy) (rs : List (Request F)) :
    (afterRequests policy rs).bindings.get? [] = none := by
  have hpop : ∀ (t : Tables) (id : PyStr), t.bindings.get? [] = none →
      (t.bindings.pop id).get? [] = none := by
    intro t id ht
    cases hget : (t.bindings.pop id).get? [] with
    | none => rfl
    | some b =>
        rw [(Dict.get?_of_pop hget).2] at ht
        cases ht
  induction rs using List.reverseRecOn with
  | nil => rfl
  | append_singleton rs r ih =>
      rw [afterRequests_concat]
      cases r with
      | bind h state =>
          refine bindState_keeps h state (I := fun t => t.bindings.get? [] = none) hpop
            (fun t b hid ht => ?_) { tables := afterRequests policy rs } ih
          exact (Dict.get?_set_ne _ (Ne.symm hid) b).trans ht
      | execute h state =>
          exact executeRecommendation_bindings h policy state (fun d => hpop ⟨d, Dict.empty⟩ _)
            { tables := afterRequests policy rs } ih

theorem Strikes.correlated {h : Host F} {policy : ResponsePolicy} {t : Tables} {state : Mapping F}
    {a : Action} (hs : Strikes h policy t state a) (ht : t.bindings.get? [] = none) :
    correlationId state ≠ [] := by
  intro hid
  cases hs with
  | terminate enabled bound process killed =>
      have hstored := bound.stored
      rw [hid, ht] at hstored
      cases hstored
  | quarantine enabled bound filed free cleared scored moved =>
      have hstored := bound.stored
      rw [hid, ht] at hstored
      cases hstored

end Engine

/-! ## A process id used twice -/

/-- The process that has the number 7 since the tick. -/
def processSince (tick : Nat) : ProcessIdentity where
  pid := 7
  startTimeTicks := tick
  executablePath := py "/usr/bin/miner"
  executableDevice := 2049
  executableInode := 131
  uid := 1000

/-- A host on which that process exits on `SIGTERM`. -/
def hostSince (tick : Nat) (audit : Except Exc Unit) : Host SampleFloat where
  ownPid := 1
  hasPidfdOpen := true
  hasPidfdSendSignal := true
  pidfdOpen := fun _ => .opened
  capture := fun _ => .ok (processSince tick)
  sendSignal := fun _ => none
  exits := fun _ => true
  openFile := fun _ => .error (py "no such file")
  quarantineFile := fun _ => (false, .error ⟨.quarantineError, []⟩)
  audit := fun _ => audit
  monotonic := tick
  stamp := ⟨py "a1", .zero, py "1970-01-01T00:00:00+00:00"⟩
  room := 400

def minerState : Mapping SampleFloat :=
  [(py "correlation_id", .str (py "c1")), (py "pid", .int 7), (py "combined_score", .int 85),
    (py "recommended_action", .str (py "TERMINATE"))]

def enabledPolicy : ResponsePolicy where
  automaticRuntimeActions := true
  escalateToSigkill := false
  requirePidfd := true
  protectedPids := [1]
  protectedPathPrefixes := [py "/opt/elyra"]

/-- The process is terminated, its number is used again, and the state is bound and executed
    again. -/
def reusedPid (audit : Except Exc Unit) : List (Request SampleFloat) :=
  [.bind (hostSince 100 (.ok ())) minerState, .execute (hostSince 100 audit) minerState,
    .bind (hostSince 200 (.ok ())) minerState, .execute (hostSince 200 (.ok ())) minerState]

theorem miner_recordable (tick : Nat) (t : Tables) {a : Action} (ha : action minerState = some a) :
    Recordable (hostSince tick (.ok ())) t minerState a where
  scored := ⟨85, by decide⟩
  roomy := show 3 ≤ 400 by decide
  rules := show (rulesValue minerState).depth < 400 by decide
  filed := by
    rintro rfl
    exact absurd ha (by decide)
  audited := rfl

end Elyra.Response
