import Elyra.Response.Escapes

set_option autoImplicit false
set_option linter.unusedSectionVars false

/-! # Failures are reported, not thrown

The operating system answers the calls of a response one by one, each as it likes (`Os`); the engine's
own tables answer theirs. `bind_state` refuses or returns, `execute_recommendation` returns, and with
them `_execute_correlated_response`, exactly in the runs in which no failure escapes. -/

namespace Elyra.Response.Steps

open Elyra.Python Elyra.Posix Elyra.Posix.Program Elyra.Correlation

variable {F : Type} {α : Type} [FloatNum F]

/-! ## Runs -/

/-- What lies outside the engine, by the place of a call in the run. -/
structure Os (F : Type) where
  reply : Nat → (c : Call F) → Except Exc c.Answer
  /-- What `os.close` raises in the lock region of `bind_state`. -/
  closing : Nat → Nat → Option Exc

/-- The lock regions work on the tables, and the other calls go outside. -/
def Os.env (os : Os F) (n : Nat) (c : (interface F).Call) (t : Tables) :
    Except Exc c.Answer × Tables :=
  match c with
  | .enter state => (.ok (enter state t.ranks), t)
  | .commit state a previous status =>
      (.ok (), { t with ranks := commit state a previous status t.ranks })
  | .bind binding =>
      match Region.swapBinding (os.closing n) binding { bindings := t.bindings } with
      | .ok _ r => (.ok (), { t with bindings := r.bindings })
      | .error e r => (.error e, { t with bindings := r.bindings })
  | .getBinding id => (.ok (t.bindings.get? id), t)
  | .popBinding id => (.ok (t.bindings.get? id), { t with bindings := t.bindings.pop id })
  | .bindingKeys => (.ok (keys t.bindings.items), t)
  | c => (os.reply n c, t)

/-- How the program ends. -/
def Os.run (os : Os F) (p : Prog F α) (t : Tables) : Except Exc α := (execute os.env p 0 t).1

/-- The failures of the run that nothing catches. -/
def Os.escaping (os : Os F) (p : Prog F α) (t : Tables) : List (Call F × Exc) :=
  (met os.env p 0 t).filter fun m => escapes m.1 m.2

/-- Every result is one the call can have: the audit logger and the clocks work, the operating system
    raises neither of the package's exceptions, and `str` refuses an integer beyond the digit limit. -/
structure Os.Ordinary (os : Os F) : Prop where
  replies : ∀ n c, possible c (os.reply n c)
  closing : ∀ n fd e, os.closing n fd = some e → e.isIn ownErrors = false

namespace Region

/-- What the statement raises is what an `os.close` raised. -/
def RaisesClosing (closing : Nat → Option Exc) {β : Type} (x : Py Region β) : Prop :=
  ∀ r e r', x r = .error e r' → ∃ fd, closing fd = some e

theorem RaisesClosing.bind {closing : Nat → Option Exc} {β γ : Type} {x : Py Region β}
    {g : β → Py Region γ} (hx : RaisesClosing closing x) (hg : ∀ b, RaisesClosing closing (g b)) :
    RaisesClosing closing (x >>= g) := by
  intro r e r' h
  cases hrun : x r with
  | ok b r₁ =>
      rw [Py.bind_of_ok hrun] at h
      exact hg b r₁ e r' h
  | error e₁ r₁ =>
      rw [Py.bind_of_error hrun] at h
      cases h
      exact hx r e r' hrun

theorem closeFd_raises (closing : Nat → Option Exc) (fd : Option Nat) :
    RaisesClosing closing (closeFd closing fd) := by
  intro r e r' h
  cases fd with
  | none => cases h
  | some fd =>
      cases hclosing : closing fd with
      | none =>
          simp only [closeFd, hclosing] at h
          cases h
      | some exc =>
          simp only [closeFd, hclosing] at h
          cases h
          exact ⟨fd, hclosing⟩

theorem drop_raises (closing : Nat → Option Exc) (key : PyStr) :
    RaisesClosing closing (drop closing key) := by
  intro r e r' h
  exact closeFd_raises closing _ _ e r' h

theorem evict_raises (closing : Nat → Option Exc) (fuel : Nat) :
    RaisesClosing closing (evict closing fuel) := by
  induction fuel with
  | zero => exact fun r e r' h => nomatch h
  | succ fuel ih =>
      refine RaisesClosing.bind (fun r e r' h => nomatch h) fun r => ?_
      split
      · exact fun r e r' h => nomatch h
      · split
        · exact fun r e r' h => nomatch h
        · exact RaisesClosing.bind (drop_raises closing _) fun _ => ih

theorem swapBinding_raises (closing : Nat → Option Exc) (binding : BoundTarget) :
    RaisesClosing closing (swapBinding closing binding) := by
  refine RaisesClosing.bind (drop_raises closing _) fun _ => ?_
  refine RaisesClosing.bind (fun r e r' h => nomatch h) fun r => ?_
  exact RaisesClosing.bind (evict_raises closing _) fun _ r e r' h => nomatch h

end Region

theorem Os.Ordinary.possible {os : Os F} (hos : os.Ordinary) (n : Nat) (c : (interface F).Call)
    (t : Tables) : possible c (os.env n c t).1 := by
  cases c with
  | bind binding =>
      simp only [Os.env]
      cases hrun : Region.swapBinding (os.closing n) binding { bindings := t.bindings } with
      | ok u r => trivial
      | error e r =>
          obtain ⟨fd, hfd⟩ := Region.swapBinding_raises _ _ _ _ _ hrun
          exact hos.closing n fd e hfd
  | enter state => trivial
  | commit state a previous status => trivial
  | getBinding id => trivial
  | popBinding id => trivial
  | bindingKeys => trivial
  | _ => exact hos.replies n _

/-! ## The consumer threads -/

/-- `bind_state` refuses the state before it reads the process number, or can read it. -/
def Bindable (state : Mapping F) : Prop := correlationId state = [] ∨ PidReadable state

theorem bindable_settled {state : Mapping F} (h : Bindable state) :
    Settled ownErrors (bindState state) (OkOr [.responseSafetyError]) := by
  rcases h with h | h
  · refine Settled.bind (readField_settled state _) (fun _ _ => ?_) fun _ he => he.elim
    rw [if_pos h]
    exact Settled.refuse (by simp)
  · exact bindState_settled h

/-- The number that `_execute_correlated_response` stores the result under converts. -/
def Recordable (state : Mapping F) : Prop :=
  ∀ pid correlationId, getTruthy state "pid" = some pid →
    getTruthy state "correlation_id" = some correlationId → ∃ n, pyInt pid = .ok n

theorem recordResult_settled {state : Mapping F} (h : Recordable state) (r : ActionResult F) :
    Settled ownErrors (recordResult state r) Returns := by
  unfold recordResult
  split
  · next pid correlationId hpid hid =>
    obtain ⟨n, hn⟩ := h pid correlationId hpid hid
    refine Settled.bind (Q := Returns) (Settled.lift (by rw [hn]; trivial)) (fun k _ => ?_)
      fun _ he => he.elim
    refine Settled.bind (Settled.askEscaping (fun _ => rfl) fun _ he => text_escaping he) (fun _ _ => ?_)
      fun _ he => he.elim
    refine Settled.bind (Settled.askEscaping (fun _ => rfl) copy_escaping) (fun _ _ => ?_) fun _ he => he.elim
    exact Settled.askSafe fun _ he => he
  · exact Settled.done trivial

theorem recordResult_stuck {state : Mapping F} (h : ¬ Recordable state) (r : ActionResult F) :
    Stuck (recordResult state r) := by
  unfold Recordable at h
  push Not at h
  obtain ⟨pid, correlationId, hpid, hid, hn⟩ := h
  unfold recordResult
  rw [hpid, hid]
  refine Stuck.before ?_
  cases hint : pyInt pid with
  | ok n => exact absurd hint (hn n)
  | error e => exact Stuck.lift (e := e.toExc) rfl

/-- What a consumer needs of the state to get through it. -/
structure Consumable (bind : Bool) (state : Mapping F) : Prop where
  bindable : bind = true → (getTruthy state "correlation_id").isSome → Bindable state
  readable : Readable state
  recordable : Recordable state

theorem bindFirst_settled {bind : Bool} {state : Mapping F}
    (h : bind = true → (getTruthy state "correlation_id").isSome → Bindable state) :
    Settled ownErrors (bindFirst bind state) Returns := by
  unfold bindFirst
  split
  · next hbind =>
    have hbody : Settled ownErrors (bindState state >>= fun _ => .done ())
        (OkOr [.responseSafetyError]) :=
      Settled.bind (bindable_settled (h hbind.1 hbind.2)) (fun _ _ => Settled.done trivial)
        fun _ he => he
    refine Settled.catching hbody (fun e he => isIn_responseSafetyError he) (fun _ _ => trivial)
      (fun _ _ _ => Settled.done trivial) fun e he hin => ?_
    exact absurd (he.symm.trans hin) (by decide)
  · exact Settled.done trivial

theorem bindFirst_stuck {bind : Bool} {state : Mapping F}
    (h : ¬ (bind = true → (getTruthy state "correlation_id").isSome → Bindable state)) :
    Stuck (bindFirst bind state) := by
  push Not at h
  obtain ⟨hbind, hid, hnot⟩ := h
  obtain ⟨hne, hpid⟩ := not_or.1 hnot
  unfold bindFirst
  rw [if_pos ⟨hbind, hid⟩]
  intro escaped
  refine tracks_orElse (tracks_bind (tracks_mono (fun escaped r hr => ?_)
    (bindState_unreadable hne hpid escaped)))
  obtain ⟨e, rfl, he⟩ := hr
  show tracks _ _ (if e.isIn [.responseSafetyError] = true then _ else .raise e) escaped _
  rw [he, if_neg Bool.false_ne_true]
  exact id

theorem executeCorrelatedResponse_settled (h : Platform) (policy : ResponsePolicy)
    {result : Mapping F} {bind : Bool}
    (hconsumable : ∀ state, acceptedState result = some state → Consumable bind state) :
    Settled ownErrors (executeCorrelatedResponse h policy result bind) Returns := by
  unfold executeCorrelatedResponse
  cases hstate : acceptedState result with
  | none => exact Settled.done trivial
  | some state =>
      obtain ⟨hbindable, hreadable, hrecordable⟩ := hconsumable state hstate
      refine Settled.bind (bindFirst_settled hbindable) (fun _ _ => ?_) fun _ he => he.elim
      refine Settled.bind (executeRecommendation_settled h policy hreadable) (fun r _ => ?_)
        fun _ he => he.elim
      exact recordResult_settled hrecordable r

theorem executeCorrelatedResponse_stuck (h : Platform) (policy : ResponsePolicy)
    {result state : Mapping F} {bind : Bool} (hstate : acceptedState result = some state)
    (hnot : ¬ Consumable bind state) : Stuck (executeCorrelatedResponse h policy result bind) := by
  unfold executeCorrelatedResponse
  rw [hstate]
  by_cases hbindable : bind = true → (getTruthy state "correlation_id").isSome → Bindable state
  · refine Stuck.after fun _ => ?_
    by_cases hreadable : Readable state
    · exact Stuck.after fun r => recordResult_stuck (fun hrecordable =>
        hnot ⟨hbindable, hreadable, hrecordable⟩) r
    · exact Stuck.before (executeRecommendation_stuck h policy hreadable)
  · exact Stuck.before (bindFirst_stuck hbindable)

/-! ## The runs in which nothing escapes -/

theorem Os.escaping_eq_nil_iff (os : Os F) (p : Prog F α) (t : Tables) :
    os.escaping p t = [] ↔ ((met os.env p 0 t).any fun m => escapes m.1 m.2) = false := by
  rw [Os.escaping, List.filter_eq_nil_iff, List.any_eq_false]

/-- A program that settles ends as wanted exactly if nothing escapes. -/
theorem Settled.iff {os : Os F} (hos : os.Ordinary) {p : Prog F α} {Q : Except Exc α → Prop}
    (h : Settled ownErrors p Q) (hQ : ∀ e, e.isIn ownErrors = false → ¬ Q (.error e)) (t : Tables) :
    Q (os.run p t) ↔ os.escaping p t = [] := by
  have hend := tracks_execute hos.possible h 0 t
  rw [Bool.false_or] at hend
  rw [Os.escaping_eq_nil_iff]
  cases hany : (met os.env p 0 t).any fun m => escapes m.1 m.2 with
  | true =>
      rw [hany] at hend
      obtain ⟨e, hrun, he⟩ := hend
      have hno : ¬ Q (os.run p t) := by
        rw [Os.run, hrun]
        exact hQ e he
      simp [hno]
  | false =>
      rw [hany] at hend
      exact ⟨fun _ => rfl, fun _ => hend⟩

theorem Stuck.run {os : Os F} (hos : os.Ordinary) {p : Prog F α} (h : Stuck p) (t : Tables) :
    ¬ Returns (os.run p t) :=
  tracks_execute hos.possible (h false) 0 t

/-- `bind_state` returns or raises a `ResponseSafetyError`, `execute_recommendation` returns, and
    `_execute_correlated_response` returns, exactly if the state converts and no failure of the run
    escapes. -/
theorem os_failures_reported_iff (h : Platform) (policy : ResponsePolicy) (os : Os F)
    (hos : os.Ordinary) (t : Tables) :
    (∀ state, OkOr [.responseSafetyError] (os.run (bindState state) t) ↔
      Bindable state ∧ os.escaping (bindState state) t = []) ∧
    (∀ state, Returns (os.run (executeRecommendation h policy state) t) ↔
      Readable state ∧ os.escaping (executeRecommendation h policy state) t = []) ∧
    ∀ result bind, Returns (os.run (executeCorrelatedResponse h policy result bind) t) ↔
      (∀ state, acceptedState result = some state → Consumable bind state) ∧
        os.escaping (executeCorrelatedResponse h policy result bind) t = [] := by
  refine ⟨fun state => ?_, fun state => ?_, fun result bind => ?_⟩
  · by_cases hb : Bindable state
    · rw [(bindable_settled hb).iff hos _ t]
      · simp [hb]
      · intro e he hQ
        exact absurd (hQ.symm.trans (isIn_responseSafetyError he)) (by decide)
    · obtain ⟨hid, hpid⟩ := not_or.1 hb
      refine iff_of_false ?_ fun hand => hb hand.1
      obtain ⟨e, hrun, he⟩ := tracks_execute hos.possible (bindState_unreadable hid hpid false) 0 t
      rw [Os.run, hrun]
      exact fun hQ => absurd (hQ.symm.trans he) (by decide)
  · by_cases hread : Readable state
    · rw [(executeRecommendation_settled h policy hread).iff hos (fun _ _ => id) t]
      simp [hread]
    · exact iff_of_false ((executeRecommendation_stuck h policy hread).run hos t)
        fun hand => hread hand.1
  · by_cases hall : ∀ state, acceptedState result = some state → Consumable bind state
    · rw [(executeCorrelatedResponse_settled h policy hall).iff hos (fun _ _ => id) t]
      exact ⟨fun hnil => ⟨hall, hnil⟩, fun hand => hand.2⟩
    · refine iff_of_false ?_ fun hand => hall hand.1
      push Not at hall
      obtain ⟨state, hstate, hnot⟩ := hall
      exact (executeCorrelatedResponse_stuck h policy hstate hnot).run hos t

/-! ## A process that exits before the signal -/

def shellStat : PyStr := py "7 (sh) S 1 7 7 0 -1 4194304 0 0 0 0 0 0 0 0 20 0 1 0 500 0"

/-- A regular file, nowhere to be found when its path is resolved; and a process that is there when
    it is inspected, but not when it is signalled. -/
def vanishing : Os SampleFloat where
  reply := fun _ c =>
    match c with
    | .text value => if value.encodable true then .ok () else .error PyExc.valueError.toExc
    | .copy _ => .ok ()
    | .readStat _ => .ok shellStat
    | .readlinkExe _ => .ok (py "/tmp/sh")
    | .statExe _ => .ok (1, 2)
    | .statRoot _ => .ok 1000
    | .lstat _ => .ok ⟨.regular, 1, 2, 0, 0, 0, 0, 0, 0, 1⟩
    | .openFile _ => .ok 5
    | .fstat _ => .ok ⟨.regular, 1, 2, 0, 0, 0, 0, 0, 0, 1⟩
    | .readAll _ => .ok []
    | .lseek _ => .ok ()
    | .resolve _ => .error ⟨.fileNotFoundError, py "No such file or directory"⟩
    | .close _ => .ok ()
    | .pidfdOpen pid =>
        if pid.natAbs < 2 ^ 31 then .ok 6 else .error ⟨.other (py "OverflowError"), []⟩
    | .sendSignal _ _ => .error ⟨.processLookupError, py "No such process"⟩
    | .waitPidfd _ _ => .ok true
    | .quarantineFile _ _ _ _ _ => .error ⟨.quarantineError, []⟩
    | .record _ => .ok ()
    | .monotonic => .ok 0
    | .stamp => .ok ⟨py "a1", .zero, py "1970-01-01T00:00:00+00:00"⟩
    | .enter _ => .ok (.acting .allow (-1))
    | .commit _ _ _ _ => .ok ()
    | .bind _ => .ok ()
    | .getBinding _ => .ok none
    | .popBinding _ => .ok none
    | .bindingKeys => .ok []
    | .recordActionResult _ _ _ => .ok ()
  closing := fun _ _ => none

theorem vanishing_ordinary : vanishing.Ordinary := by
  refine ⟨fun n c => ?_, fun n fd e h => nomatch h⟩
  cases c with
  | text value =>
      simp only [vanishing]
      split
      · next hwritten => exact hwritten
      · next hlong => exact .inl ⟨hlong, rfl⟩
  | pidfdOpen pid =>
      simp only [vanishing]
      split
      · next hsmall => exact hsmall
      · rfl
  | resolve path => rfl
  | sendSignal pidfd s => rfl
  | _ => trivial

/-- The shell runs a script, and is to be terminated. -/
def shellState : Mapping SampleFloat :=
  [(py "correlation_id", .str (py "c1")), (py "pid", .int 7), (py "combined_score", .int 80),
    (py "path", .str (py "/tmp/script")), (py "recommended_action", .str (py "TERMINATE"))]

def shellBound : Tables where
  bindings := Dict.empty.set (py "c1")
    { correlationId := py "c1"
      pid := 7
      process := some ⟨7, 500, py "/tmp/sh", 1, 2, 1000⟩
      file := none
      fileFd := none
      boundAtMonotonic := 0 }

def terminating : ResponsePolicy where
  automaticRuntimeActions := true
  escalateToSigkill := true
  requirePidfd := true
  protectedPids := [0, 1]
  protectedPathPrefixes := [py "/opt/elyra"]

def linux : Platform := ⟨900, true, true⟩

/-- Both raise what the operating system raised. -/
theorem vanishing_escapes :
    vanishing.Ordinary ∧
      vanishing.run (bindState shellState) shellBound =
        .error ⟨.fileNotFoundError, py "No such file or directory"⟩ ∧
      vanishing.run (executeRecommendation linux terminating shellState) shellBound =
        .error ⟨.processLookupError, py "No such process"⟩ :=
  ⟨vanishing_ordinary, rfl, rfl⟩

/-- The same shell, with no file to bind and nothing to signal. -/
def warnState : Mapping SampleFloat :=
  [(py "correlation_id", .str (py "c1")), (py "pid", .int 7), (py "combined_score", .int 40),
    (py "recommended_action", .str (py "ALERT"))]

theorem warning_reported :
    OkOr [.responseSafetyError] (vanishing.run (bindState warnState) shellBound) ∧
      Returns (vanishing.run (executeRecommendation linux terminating warnState) shellBound) := by
  have hiff := os_failures_reported_iff linux terminating vanishing vanishing_ordinary shellBound
  have hbindable : Bindable warnState := by
    refine .inr ⟨some 7, rfl, ?_⟩
    rintro k ⟨⟩
    decide
  have hreadable : Readable warnState := ⟨⟨some 7, rfl⟩, 40, by decide⟩
  rw [hiff.1 warnState, hiff.2.1 warnState, ← List.isEmpty_iff, ← List.isEmpty_iff]
  exact And.intro (And.intro hbindable (by decide +kernel)) (And.intro hreadable (by decide +kernel))

end Elyra.Response.Steps
