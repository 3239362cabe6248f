import Elyra.Posix.Failures
import Elyra.Python.JsonLimits
import Elyra.Response.Steps

set_option autoImplicit false
set_option linter.unusedSectionVars false

/-! # Which failures a response lets through

`bind_state` is to return or raise a `ResponseSafetyError`, and `execute_recommendation` to return,
whatever the operating system does. They do exactly if no call fails at a place where nothing wraps
the failure (`escapes`), and the state has a process number and a score that convert: `int` and
`float` raise `OverflowError`, which `_pid` and `_score` do not catch. Among the calls are `str` of a
value of the state, which raises `ValueError` exactly if an integer in it is beyond the digit limit, and
`asdict`; both raise `RecursionError` of a container that nests too deep. -/

namespace Elyra.Response.Steps

open Elyra.Python Elyra.Posix Elyra.Posix.Program Elyra.Correlation

variable {F : Type} {α β : Type} [FloatNum F]

/-! ## Failures -/

/-- What `ProcessInspector.capture` turns into a `ResponseSafetyError`. -/
def captureCatches : List ExcClass :=
  [.fileNotFoundError, .processLookupError, .osError, .valueError, indexError]

/-- The package's own exceptions. -/
def ownErrors : List ExcClass := [.responseSafetyError, .quarantineError]

/-- Whether nothing between the call and the end of `bind_state` or `execute_recommendation` catches
    the failure. -/
def escapes : Call F → Exc → Bool
  | .readStat _, e => !e.isIn captureCatches
  | .readlinkExe _, e => !e.isIn captureCatches
  | .statExe _, e => !e.isIn captureCatches
  | .statRoot _, e => !e.isIn captureCatches
  | .lstat _, e => !e.isIn [.osError]
  | .openFile _, e => !e.isIn [.osError]
  | .pidfdOpen _, e => !e.isIn [.osError]
  | .quarantineFile _ _ _ _ _, e => !e.isIn ownErrors
  | _, _ => true

/-- No integer in the value is beyond the digit limit. -/
def Written (value : Json F) : Prop := value.encodable true = true

/-- The failures a call can have, where the audit logger and the clocks work: those of the operating
    system, any of `quarantine_file`, and those of `str` and `asdict`. -/
def canFail : Call F → Exc → Prop
  | .text value, e => ¬ Written value ∧ e = PyExc.valueError.toExc ∨ 0 < value.depth ∧ e = recursionError
  | .copy _, e => e = recursionError
  | .quarantineFile _ _ _ _ _, _ => True
  | .record _, _ => False
  | .monotonic, _ => False
  | .stamp, _ => False
  | .enter _, _ => False
  | .commit _ _ _ _, _ => False
  | .getBinding _, _ => False
  | .popBinding _, _ => False
  | .bindingKeys, _ => False
  | .recordActionResult _ _ _, _ => False
  | _, e => e.isIn ownErrors = false

/-- What the call can be of where it does not fail. A process number is a C `int`. -/
def canSucceed : Call F → Prop
  | .text value => Written value
  | .pidfdOpen pid => pid.natAbs < 2 ^ 31
  | _ => True

/-- The results a call can have. -/
def possible (c : (interface F).Call) : Except Exc c.Answer → Prop
  | .ok _ => canSucceed c
  | .error e => canFail c e

/-- Before anything has escaped the result is as wanted; what has escaped, an exception of none of the
    classes `out`, ends the program. -/
def Settles (out : List ExcClass) (Q : Except Exc α → Prop) (escaped : Bool)
    (r : Except Exc α) : Prop :=
  if escaped then ∃ e, r = .error e ∧ e.isIn out = false else Q r

/-- The program settles. -/
def Settled (out : List ExcClass) (p : Prog F α) (Q : Except Exc α → Prop) : Prop :=
  tracks possible escapes p false (Settles out Q)

/-- The result is a value, or one of these exceptions. -/
def OkOr (caught : List ExcClass) : Except Exc α → Prop
  | .ok _ => True
  | .error e => e.isIn caught = true

def Returns : Except Exc α → Prop
  | .ok _ => True
  | .error _ => False

/-! ## Rules -/

section Rules

variable {out classes caught : List ExcClass} {p : Prog F α} {Q R : Except Exc α → Prop}

theorem Settled.done {a : α} (h : Q (.ok a)) : Settled out (.done a : Prog F α) Q := h

theorem Settled.raise {e : Exc} (h : Q (.error e)) :
    Settled out (.raise e : Prog F α) Q := h

theorem Settled.refuse {text : PyStr} (h : .responseSafetyError ∈ caught) :
    Settled out (refuse text : Prog F α) (OkOr caught) := by
  refine Settled.raise ?_
  simp only [OkOr, Exc.isIn, safetyError, List.any_eq_true]
  exact ⟨_, h, by simp [ExcClass.isA]⟩

theorem Settled.lift {x : Except Exc α} (h : Q x) :
    Settled out (lift x : Prog F α) Q := by
  cases x with
  | ok a => exact h
  | error e => exact h

theorem Settled.ask {c : Call F} {Q : Except Exc c.Answer → Prop}
    (hok : ∀ a, possible c (.ok a) → Q (.ok a))
    (hescaped : ∀ e, canFail c e → escapes c e = true → e.isIn out = false)
    (hkept : ∀ e, canFail c e → escapes c e = false → Q (.error e)) :
    Settled out (ask c) Q := by
  refine ⟨fun a ha => hok a ha, fun e he => ?_⟩
  show Settles out Q (false || escapes c e) (.error e)
  cases hescapes : escapes c e with
  | true => exact ⟨e, rfl, hescaped e he hescapes⟩
  | false => exact hkept e he hescapes

/-- A call that cannot fail. -/
theorem Settled.askSafe {c : Call F} (h : ∀ e, ¬ canFail c e) :
    Settled out (Steps.ask c) Returns :=
  Settled.ask (fun _ _ => trivial) (fun e he => absurd he (h e)) fun e he => absurd he (h e)

/-- A call whose failures all escape. -/
theorem Settled.askEscaping {c : Call F} (hescapes : ∀ e, escapes c e = true)
    (hout : ∀ e, canFail c e → e.isIn out = false) : Settled out (Steps.ask c) Returns := by
  refine Settled.ask (fun _ _ => trivial) (fun e he _ => hout e he) fun e _ hkept => ?_
  rw [hescapes e] at hkept
  cases hkept

/-- A call whose failures are caught, unless they escape. -/
theorem Settled.askCaught {c : Call F} (hescapes : ∀ e, escapes c e = !e.isIn caught)
    (hout : ∀ e, canFail c e → e.isIn caught = false → e.isIn out = false) :
    Settled out (Steps.ask c) (OkOr caught) := by
  refine Settled.ask (fun _ _ => trivial) (fun e he hescaped => ?_) fun e _ hkept => ?_
  · rw [hescapes e, Bool.not_eq_true'] at hescaped
    exact hout e he hescaped
  · rw [hescapes e, Bool.not_eq_false'] at hkept
    exact hkept

theorem Settled.mono {out' : List ExcClass} (h : Settled out p Q)
    (hout : ∀ e : Exc, e.isIn out = false → e.isIn out' = false)
    (hQ : ∀ r, Q r → R r) : Settled out' p R := by
  refine tracks_mono (fun escaped r hr => ?_) h
  cases escaped with
  | true =>
      obtain ⟨e, rfl, he⟩ := hr
      exact ⟨e, rfl, hout e he⟩
  | false => exact hQ r hr

theorem Settled.bind {g : α → Prog F β} {R : Except Exc β → Prop} (hp : Settled out p Q)
    (hok : ∀ a, Q (.ok a) → Settled out (g a) R)
    (herror : ∀ e, Q (.error e) → R (.error e)) : Settled out (p >>= g) R := by
  refine tracks_bind (tracks_mono (fun escaped r hr => ?_) hp)
  cases escaped with
  | true =>
      obtain ⟨e, rfl, he⟩ := hr
      exact ⟨e, rfl, he⟩
  | false =>
      cases r with
      | ok a => exact hok a hr
      | error e => exact herror e hr

theorem Settled.catching {handler : Exc → Prog F α} (hp : Settled out p Q)
    (hout : ∀ e : Exc, e.isIn out = false → e.isIn classes = false)
    (hok : ∀ a, Q (.ok a) → R (.ok a))
    (hcaught : ∀ e, Q (.error e) → e.isIn classes = true → Settled out (handler e) R)
    (hother : ∀ e, Q (.error e) → e.isIn classes = false → R (.error e)) :
    Settled out (catching classes p handler) R := by
  refine tracks_orElse (tracks_mono (fun escaped r hr => ?_) hp)
  cases escaped with
  | true =>
      obtain ⟨e, rfl, he⟩ := hr
      show tracks _ _ (if e.isIn classes = true then handler e else .raise e) true _
      rw [hout e he, if_neg Bool.false_ne_true]
      exact ⟨e, rfl, he⟩
  | false =>
      cases r with
      | ok a => exact hok a hr
      | error e =>
          show tracks _ _ (if e.isIn classes = true then handler e else .raise e) false _
          by_cases hin : e.isIn classes = true
          · rw [if_pos hin]
            exact hcaught e hr hin
          · rw [if_neg hin]
            exact hother e hr (Bool.eq_false_iff.2 hin)

/-- `except Exception: os.close(fd); raise`. -/
theorem Settled.orClose {fd : Nat} (hp : Settled ownErrors p Q) :
    Settled ownErrors (p.orElse fun e => do
      Steps.ask (.close fd)
      .raise e) Q := by
  refine tracks_orElse (tracks_mono (fun escaped r hr => ?_) hp)
  cases r with
  | ok a => exact hr
  | error e =>
      refine ⟨fun _ _ => hr, fun e' he' => ?_⟩
      show Settles ownErrors Q (escaped || true) (.error e')
      rw [Bool.or_true]
      exact ⟨e', rfl, he'⟩

/-- `finally: os.close(fd)`. -/
theorem Settled.andFinally {fd : Nat} (hp : Settled ownErrors p Q) :
    Settled ownErrors (andFinally p (Steps.ask (.close fd))) Q := by
  refine Settled.bind hp.orClose (fun a ha => ?_) fun e he => he
  exact Settled.bind (Settled.askEscaping (fun _ => rfl) fun e he => he)
    (fun _ _ => Settled.done ha) fun e he => he.elim

end Rules

/-! ## Inspecting and opening -/

theorem startTimeTicks_okOr (text : PyStr) : OkOr captureCatches (startTimeTicks text) := by
  unfold startTimeTicks
  split
  · rfl
  · split
    · rfl
    · split
      · rfl
      · trivial

theorem isIn_append (e : Exc) (cs ds : List ExcClass) : e.isIn (cs ++ ds) = (e.isIn cs || e.isIn ds) := by
  simp [Exc.isIn]

theorem readProcess_settled (pid : Int) :
    Settled (ownErrors ++ captureCatches) (readProcess pid : Prog F ProcessIdentity)
      (OkOr captureCatches) := by
  have hcall : ∀ c : Call F, (∀ e, escapes c e = !e.isIn captureCatches) →
      (∀ e, canFail c e → e.isIn ownErrors = false) →
      Settled (ownErrors ++ captureCatches) (Steps.ask c) (OkOr captureCatches) := by
    intro c hescapes hfail
    refine Settled.askCaught hescapes fun e he hin => ?_
    rw [isIn_append, hfail e he, hin, Bool.or_false]
  refine Settled.bind (hcall _ (fun _ => rfl) fun _ he => he) (fun text _ => ?_) fun _ he => he
  refine Settled.bind (Settled.lift (startTimeTicks_okOr text)) (fun ticks _ => ?_) fun _ he => he
  refine Settled.bind (hcall _ (fun _ => rfl) fun _ he => he) (fun path _ => ?_) fun _ he => he
  refine Settled.bind (hcall _ (fun _ => rfl) fun _ he => he) (fun exe _ => ?_) fun _ he => he
  refine Settled.bind (hcall _ (fun _ => rfl) fun _ he => he) (fun uid _ => ?_) fun _ he => he
  exact Settled.done trivial

theorem capture_settled {pid : Int} (hpid : TextFits pid) :
    Settled ownErrors (capture pid : Prog F ProcessIdentity) (OkOr [.responseSafetyError]) := by
  unfold capture
  split
  · exact Settled.refuse (by simp)
  · rw [pidText, if_pos hpid]
    refine Settled.bind (Q := Returns) (Settled.lift trivial) (fun text _ => ?_) fun _ he => he.elim
    refine Settled.mono
      (Settled.catching (readProcess_settled pid) ?_ (fun _ _ => trivial) ?_ ?_) ?_ fun _ hr => hr
    · intro e he
      rw [isIn_append, Bool.or_eq_false_iff] at he
      exact he.2
    · intro e _ _
      split
      · exact Settled.refuse (by simp)
      · exact Settled.refuse (by simp)
    · intro e he hin
      exact absurd (he.symm.trans hin) (by decide)
    · intro e he
      rw [isIn_append, Bool.or_eq_false_iff] at he
      exact he.1

theorem readIdentity_settled (path : PyStr) (metadata : Stat) (fd : Nat) :
    Settled ownErrors (readIdentity path metadata fd : Prog F FileIdentity)
      (OkOr [.responseSafetyError]) := by
  refine Settled.bind (Settled.askEscaping (fun _ => rfl) fun _ he => he) (fun opened _ => ?_)
    fun _ he => he.elim
  split
  · exact Settled.refuse (by simp)
  · refine Settled.bind (Settled.askEscaping (fun _ => rfl) fun _ he => he) (fun data _ => ?_)
      fun _ he => he.elim
    refine Settled.bind (Settled.askEscaping (fun _ => rfl) fun _ he => he) (fun _ _ => ?_)
      fun _ he => he.elim
    refine Settled.bind (Settled.askEscaping (fun _ => rfl) fun _ he => he) (fun after _ => ?_)
      fun _ he => he.elim
    split
    · exact Settled.bind (Settled.askEscaping (fun _ => rfl) fun _ he => he)
        (fun resolved _ => Settled.done trivial) fun _ he => he.elim
    · exact Settled.refuse (by simp)

/-- A call whose `OSError` becomes a `ResponseSafetyError`. -/
theorem Settled.askWrapped {c : Call F} {text : Exc → PyStr}
    (hescapes : ∀ e, escapes c e = !e.isIn [.osError])
    (hout : ∀ e, canFail c e → e.isIn ownErrors = false) :
    Settled ownErrors (Steps.catching [.osError] (Steps.ask c) fun e => Steps.refuse (text e))
      (OkOr [.responseSafetyError]) := by
  have hcall : Settled (ownErrors ++ [.osError]) (Steps.ask c) (OkOr [.osError]) :=
    Settled.askCaught hescapes fun e he hin => by
      rw [isIn_append, hout e he, hin, Bool.or_false]
  refine Settled.mono (Settled.catching hcall ?_ (fun _ _ => trivial) ?_ ?_) ?_ fun _ hr => hr
  · intro e he
    rw [isIn_append, Bool.or_eq_false_iff] at he
    exact he.2
  · intro e _ _
    exact Settled.refuse (by simp)
  · intro e he hin
    exact absurd (he.symm.trans hin) (by decide)
  · intro e he
    rw [isIn_append, Bool.or_eq_false_iff] at he
    exact he.1

theorem openFileIdentity_settled (path : PyStr) :
    Settled ownErrors (openFileIdentity path : Prog F (FileIdentity × Nat))
      (OkOr [.responseSafetyError]) := by
  refine Settled.bind (Q := OkOr [.responseSafetyError])
    (Settled.askWrapped (fun _ => rfl) fun _ he => he) (fun metadata _ => ?_) fun _ he => he
  split
  · exact Settled.refuse (by simp)
  · refine Settled.bind (Q := OkOr [.responseSafetyError])
      (Settled.askWrapped (fun _ => rfl) fun _ he => he) (fun fd _ => ?_) fun _ he => he
    exact Settled.bind (readIdentity_settled path metadata fd).orClose
      (fun identity _ => Settled.done trivial) fun _ he => he

/-! ## Binding -/

theorem isIn_responseSafetyError {e : Exc} (h : e.isIn ownErrors = false) :
    e.isIn [.responseSafetyError] = false := by
  simp only [ownErrors, Exc.isIn, List.any_cons, List.any_nil, Bool.or_false,
    Bool.or_eq_false_iff] at h ⊢
  exact h.1

theorem unlessRefused_settled {p : Prog F α} (h : Settled ownErrors p (OkOr [.responseSafetyError])) :
    Settled ownErrors (unlessRefused p) Returns := by
  have hsome : Settled ownErrors (p >>= fun a => .done (some a)) (OkOr [.responseSafetyError]) :=
    Settled.bind h (fun _ _ => Settled.done trivial) fun _ he => he
  refine Settled.catching hsome (fun e he => isIn_responseSafetyError he) (fun _ _ => trivial)
    (fun _ _ _ => Settled.done trivial) fun e he hin => ?_
  exact absurd (he.symm.trans hin) (by decide)

/-- The process number of the state converts, and to a text as well. -/
def PidReadable (state : Mapping F) : Prop :=
  ∃ n, pid state = .ok n ∧ ∀ k ∈ n, TextFits k

theorem captureBound_settled {n : Option Int} (h : ∀ k ∈ n, TextFits k) :
    Settled ownErrors (captureBound n : Prog F (Option ProcessIdentity)) Returns := by
  cases n with
  | none => exact Settled.done trivial
  | some k => exact unlessRefused_settled (capture_settled (h k rfl))

theorem openBound_settled (path : Option PyStr) :
    Settled ownErrors (openBound path : Prog F (Option (FileIdentity × Nat))) Returns := by
  cases path with
  | none => exact Settled.done trivial
  | some path => exact unlessRefused_settled (openFileIdentity_settled path)

theorem text_escaping {value : Json F} {e : Exc} (h : canFail (.text value) e) :
    e.isIn ownErrors = false := by
  rcases h with ⟨-, rfl⟩ | ⟨-, rfl⟩ <;> rfl

theorem readField_settled (state : Mapping F) (key : String) :
    Settled ownErrors (readField state key) Returns := by
  unfold readField
  cases getTruthy state key with
  | none => exact Settled.done trivial
  | some value => exact Settled.askEscaping (fun _ => rfl) fun _ he => text_escaping he

theorem readTexts_settled (state : Mapping F) : Settled ownErrors (readTexts state) Returns := by
  refine Settled.bind (readField_settled state _) (fun _ _ => ?_) fun _ he => he.elim
  cases action state with
  | none => exact Settled.done trivial
  | some a => exact readField_settled state _

theorem bindState_settled {state : Mapping F} (h : PidReadable state) :
    Settled ownErrors (bindState state) (OkOr [.responseSafetyError]) := by
  obtain ⟨n, hpid, hdigits⟩ := h
  refine Settled.bind (readField_settled state _) (fun _ _ => ?_) fun _ he => he.elim
  split
  · exact Settled.refuse (by simp)
  · rw [hpid]
    refine Settled.bind (Q := (· = .ok n)) (Settled.lift rfl) (fun n' hn => ?_) fun _ he => nomatch he
    obtain rfl : n' = n := by simpa using hn
    refine Settled.bind (captureBound_settled hdigits) (fun process _ => ?_) fun _ he => he.elim
    refine Settled.bind (openBound_settled _) (fun file _ => ?_) fun _ he => he.elim
    split
    · exact Settled.refuse (by simp)
    · refine Settled.bind (Settled.askSafe fun _ he => he) (fun now _ => ?_) fun _ he => he.elim
      refine Settled.bind (Settled.askEscaping (fun _ => rfl) fun e he => he) (fun _ _ => ?_) fun _ he => he.elim
      exact Settled.done trivial

theorem pid_pos {state : Mapping F} {k : Int} (h : pid state = .ok (some k)) : 0 < k := by
  unfold pid at h
  split at h
  · cases h
  · cases h
  · cases h
  · split at h
    · split at h
      · next hpos =>
        cases h
        exact hpos
      · cases h
    · cases h
    · cases h

/-- Every run of the program ends by an exception that is no `ResponseSafetyError`. -/
def Throws (p : Prog F α) : Prop :=
  ∀ escaped, tracks possible escapes p escaped fun _ r =>
    ∃ e, r = .error e ∧ e.isIn [.responseSafetyError] = false

theorem Throws.raise {e : Exc} (h : e.isIn [.responseSafetyError] = false) :
    Throws (.raise e : Prog F α) := fun _ => ⟨e, rfl, h⟩

/-- A text that is read on the way. -/
theorem Throws.readField {state : Mapping F} {key : String} {p : Prog F α} (hp : Throws p) :
    Throws (do Steps.readField state key; p) := by
  intro escaped
  unfold Steps.readField
  cases getTruthy state key with
  | none => exact hp escaped
  | some value =>
      exact ⟨fun _ _ => hp _, fun e he => ⟨e, rfl, isIn_responseSafetyError (text_escaping he)⟩⟩

/-- A process number that does not convert ends `bind_state`, before anything but the identifier has been
    read. -/
theorem bindState_unreadable {state : Mapping F} (hid : correlationId state ≠ [])
    (h : ¬ PidReadable state) : Throws (bindState state) := by
  refine Throws.readField ?_
  rw [if_neg hid]
  cases hpid : pid state with
  | error e =>
      refine Throws.raise ?_
      cases e <;> rfl
  | ok n =>
      obtain ⟨k, rfl, hk⟩ : ∃ k, n = some k ∧ ¬ TextFits k := by
        by_contra hall
        push Not at hall
        refine h ⟨n, hpid, fun k hk => ?_⟩
        exact hall k hk
      have hcapture : (capture k : Prog F ProcessIdentity) =
          .raise ⟨.valueError, py "Exceeds the limit for integer string conversion"⟩ := by
        rw [capture, if_neg (not_le.2 (pid_pos hpid)), pidText, if_neg hk]
        rfl
      have hraise : (captureBound (some k) : Prog F (Option ProcessIdentity)) =
          .raise ⟨.valueError, py "Exceeds the limit for integer string conversion"⟩ := by
        rw [captureBound, hcapture]
        rfl
      show Throws (captureBound (some k) >>= _ : Prog F (Mapping F))
      rw [hraise]
      exact Throws.raise rfl

/-! ## Terminating -/

theorem bindingOf_settled {state : Mapping F} {n : Option Int} (hpid : pid state = .ok n) :
    Settled ownErrors (bindingOf state) (OkOr [.responseSafetyError]) := by
  refine Settled.bind (readField_settled state _) (fun _ _ => ?_) fun _ he => he.elim
  refine Settled.bind (Settled.askSafe fun _ he => he) (fun binding _ => ?_) fun _ he => he.elim
  cases binding with
  | none => exact Settled.refuse (by simp)
  | some binding =>
      refine Settled.bind (Q := Returns) (Settled.lift (by rw [hpid]; trivial)) (fun k _ => ?_)
        fun _ he => he.elim
      split
      · exact Settled.refuse (by simp)
      · exact Settled.done trivial

theorem signalProcess_settled {policy : ResponsePolicy} {expected : ProcessIdentity} {pidfd : Nat}
    (hpid : TextFits expected.pid) :
    Settled ownErrors (signalProcess policy expected pidfd : Prog F (Mapping F))
      (OkOr [.responseSafetyError]) := by
  have hescalate : Settled ownErrors (escalate policy pidfd : Prog F (Mapping F))
      (OkOr [.responseSafetyError]) := by
    unfold escalate
    split
    · exact Settled.refuse (by simp)
    · refine Settled.bind (Settled.askEscaping (fun _ => rfl) fun _ he => he) (fun _ _ => ?_) fun _ he => he.elim
      refine Settled.bind (Settled.askEscaping (fun _ => rfl) fun _ he => he) (fun exited _ => ?_)
        fun _ he => he.elim
      cases exited with
      | true => exact Settled.done trivial
      | false => exact Settled.refuse (by simp)
  refine Settled.bind (capture_settled hpid) (fun current _ => ?_) fun _ he => he
  split
  · refine Settled.bind (Settled.askEscaping (fun _ => rfl) fun _ he => he) (fun _ _ => ?_) fun _ he => he.elim
    refine Settled.bind (Settled.askEscaping (fun _ => rfl) fun _ he => he) (fun exited _ => ?_)
      fun _ he => he.elim
    cases exited with
    | true => exact Settled.done trivial
    | false => exact hescalate
  · exact Settled.refuse (by simp)

theorem checkTermination_okOr (h : Platform) (policy : ResponsePolicy) (expected : ProcessIdentity) :
    OkOr [.responseSafetyError] (h.checkTermination policy expected) := by
  unfold Platform.checkTermination
  split
  · rfl
  · split
    · rfl
    · split
      · rfl
      · split
        · rfl
        · trivial

theorem isIn_processLookupError {e : Exc} (h : e.isIn [.osError] = false) :
    e.isIn [.processLookupError] = false := by
  obtain ⟨cls, text⟩ := e
  cases cls with
  | processLookupError => cases h
  | _ => rfl

theorem terminate_settled (h : Platform) (policy : ResponsePolicy) (expected : ProcessIdentity) :
    Settled ownErrors (terminate h policy expected : Prog F (Mapping F))
      (OkOr [.responseSafetyError]) := by
  refine Settled.bind (Settled.lift (checkTermination_okOr h policy expected)) (fun _ _ => ?_)
    fun _ he => he
  refine ⟨fun pidfd hpid => ?_, fun e he => ?_⟩
  · have hten : (natText expected.pid.natAbs).length ≤ 10 := by
      rw [natText_length_le (by decide)]
      exact (show expected.pid.natAbs < 2 ^ 31 from hpid).trans (by norm_num)
    exact (signalProcess_settled (hten.trans (by decide))).andFinally
  · show tracks possible escapes (if _ then _ else if _ then _ else _) (false || !e.isIn [.osError]) _
    cases hos : e.isIn [.osError] with
    | true =>
        split
        · exact Settled.done trivial
        · exact Settled.refuse (by simp)
    | false =>
        rw [isIn_processLookupError hos, if_neg Bool.false_ne_true, if_neg Bool.false_ne_true]
        exact ⟨e, rfl, he⟩

/-! ## Executing a recommendation -/

/-- The process number and the score of the state convert. -/
def Readable (state : Mapping F) : Prop := (∃ n, pid state = .ok n) ∧ ∃ n, score state = .ok n

theorem copy_escaping {result : Mapping F} (e : Exc) (h : canFail (.copy result) e) :
    e.isIn ownErrors = false := by
  obtain rfl : e = recursionError := h
  rfl

theorem resultOf_settled {state : Mapping F} (h : Readable state) (report : Report F) :
    Settled ownErrors (resultOf state report) Returns := by
  obtain ⟨⟨n, hpid⟩, m, hscore⟩ := h
  refine Settled.bind (Settled.askSafe fun _ he => he) (fun stamp _ => ?_) fun _ he => he.elim
  refine Settled.bind (readField_settled state _) (fun _ _ => ?_) fun _ he => he.elim
  refine Settled.bind (Q := Returns) (Settled.lift ?_) (fun r _ => ?_) fun _ he => he.elim
  · rw [result, hscore, hpid]
    trivial
  · refine Settled.bind (Settled.askEscaping (fun _ => rfl) copy_escaping) (fun _ _ => ?_) fun _ he => he.elim
    exact Settled.bind (Settled.askSafe fun _ he => he) (fun _ _ => Settled.done trivial) fun _ he => he.elim

theorem releaseBinding_settled (id : PyStr) :
    Settled ownErrors (releaseBinding id : Prog F Unit) Returns := by
  refine Settled.bind (Settled.askSafe fun _ he => he) (fun binding _ => ?_) fun _ he => he.elim
  cases hfd : binding.bind BoundTarget.fileFd with
  | none => exact Settled.done trivial
  | some fd => exact Settled.askEscaping (fun _ => rfl) fun _ he => he

theorem releaseState_settled (state : Mapping F) : Settled ownErrors (releaseState state) Returns :=
  Settled.bind (readField_settled state _) (fun _ _ => releaseBinding_settled _) fun _ he => he.elim

theorem Settled.widen {p : Prog F α} {C C' D : List ExcClass} (h : Settled C p (OkOr D))
    (hsub : ∀ e : Exc, e.isIn D = true → e.isIn C' = true) : Settled C p (OkOr C') :=
  h.mono (fun _ he => he) fun r hr => by
    cases r with
    | ok a => trivial
    | error e => exact hsub e hr

theorem Settled.okOr {p : Prog F α} {C D : List ExcClass} (h : Settled C p Returns) :
    Settled C p (OkOr D) :=
  h.mono (fun _ he => he) fun r hr => by
    cases r with
    | ok a => trivial
    | error e => exact hr.elim

theorem executeTerminate_settled (h : Platform) (policy : ResponsePolicy) {state : Mapping F}
    (hread : Readable state) : Settled ownErrors (executeTerminate h policy state) Returns := by
  obtain ⟨n, hpid⟩ := hread.1
  refine Settled.catching (Q := OkOr [.responseSafetyError]) ?_
    (fun e he => isIn_responseSafetyError he) (fun _ _ => trivial)
    (fun _ _ _ => resultOf_settled hread _) fun e he hin => ?_
  · refine Settled.bind (bindingOf_settled hpid) (fun binding _ => ?_) fun _ he => he
    cases hprocess : binding.process with
    | none => exact Settled.refuse (by simp)
    | some p =>
        refine Settled.bind (terminate_settled h policy p) (fun details _ => ?_) fun _ he => he
        exact (resultOf_settled hread _).okOr
  · exact absurd (he.symm.trans hin) (by decide)

theorem isIn_ownErrors {e : Exc} (h : e.isIn [.responseSafetyError] = true) :
    e.isIn ownErrors = true := by
  simp only [ownErrors, Exc.isIn, List.any_cons, List.any_nil, Bool.or_false, Bool.or_eq_true]
    at h ⊢
  exact .inl h

theorem quarantineTarget_settled (h : Platform) (policy : ResponsePolicy) {state : Mapping F}
    (hread : Readable state) :
    Settled ownErrors (quarantineTarget h policy state) (OkOr ownErrors) := by
  obtain ⟨⟨n, hpid⟩, m, hscore⟩ := hread
  have hrefuse : ∀ text, Settled ownErrors (refuse text : Prog F (ActionResult F))
      (OkOr ownErrors) := fun text => Settled.refuse (by simp [ownErrors])
  refine Settled.bind ((bindingOf_settled hpid).widen fun _ => isIn_ownErrors) (fun binding _ => ?_)
    fun _ he => he
  cases hfile : binding.file with
  | none => exact hrefuse _
  | some file =>
      dsimp only
      split
      · exact hrefuse _
      · refine Settled.bind (Q := OkOr ownErrors) ?_ (fun termination _ => ?_) fun _ he => he
        · cases hprocess : binding.process with
          | none => exact Settled.done trivial
          | some p =>
              refine Settled.bind ((terminate_settled h policy p).widen fun _ => isIn_ownErrors)
                (fun details _ => Settled.done trivial) fun _ he => he
        · refine Settled.bind (Q := OkOr ownErrors) ?_ (fun record _ => ?_) fun _ he => he
          · refine Settled.bind (Q := Returns) (Settled.lift (by rw [hscore]; trivial))
              (fun _ _ => ?_) fun _ he => he.elim
            exact Settled.askCaught (fun _ => rfl) fun e _ hin => hin
          · refine Settled.bind (resultOf_settled ⟨⟨n, hpid⟩, m, hscore⟩ _) (fun r _ => ?_)
              fun _ he => he.elim
            exact Settled.bind (releaseState_settled state) (fun _ _ => Settled.done trivial)
              fun _ he => he.elim

theorem executeQuarantine_settled (h : Platform) (policy : ResponsePolicy) {state : Mapping F}
    (hread : Readable state) : Settled ownErrors (executeQuarantine h policy state) Returns := by
  refine Settled.catching (quarantineTarget_settled h policy hread) (fun _ he => he)
    (fun _ _ => trivial) (fun exc _ _ => ?_) fun e he hin => ?_
  · refine Settled.bind (resultOf_settled hread _) (fun r _ => ?_) fun _ he => he.elim
    exact Settled.bind (releaseState_settled state) (fun _ _ => Settled.done trivial)
      fun _ he => he.elim
  · exact absurd (he.symm.trans hin) (by decide)

theorem act_declined (automatic : Bool) (state : Mapping F) (a : Action) :
    ∃ report, act automatic state a (.declined []) = .ok report := by
  cases a with
  | deny =>
      unfold act
      dsimp only
      split
      · exact ⟨_, rfl⟩
      · exact ⟨_, rfl⟩
  | terminate => cases automatic <;> exact ⟨_, rfl⟩
  | quarantine => cases automatic <;> exact ⟨_, rfl⟩
  | _ => exact ⟨_, rfl⟩

theorem perform_settled (h : Platform) (policy : ResponsePolicy) {state : Mapping F}
    (hread : Readable state) (a : Action) : Settled ownErrors (perform h policy state a) Returns := by
  have hreport : ∀ automatic a, Settled ownErrors (reportAction automatic state a) Returns := by
    intro automatic a
    obtain ⟨report, hact⟩ := act_declined automatic state a
    refine Settled.bind (Q := Returns) (Settled.lift (by rw [hact]; trivial)) (fun r _ => ?_)
      fun _ he => he.elim
    exact resultOf_settled hread r
  cases a with
  | terminate =>
      dsimp only [perform]
      split
      · exact executeTerminate_settled h policy hread
      · exact hreport _ _
  | quarantine =>
      dsimp only [perform]
      split
      · exact executeQuarantine_settled h policy hread
      · exact hreport _ _
  | deny =>
      exact Settled.bind (Settled.askEscaping (fun _ => rfl) fun _ he => text_escaping he)
        (fun _ _ => hreport _ _) fun _ he => he.elim
  | _ => exact hreport _ _

theorem executeRecommendation_settled (h : Platform) (policy : ResponsePolicy) {state : Mapping F}
    (hread : Readable state) :
    Settled ownErrors (executeRecommendation h policy state) Returns := by
  refine Settled.bind (readTexts_settled state) (fun _ _ => ?_) fun _ he => he.elim
  refine Settled.bind (Settled.askSafe fun _ he => he) (fun entered _ => ?_) fun _ he => he.elim
  cases entered with
  | answered report => exact resultOf_settled hread report
  | acting a previous =>
      refine Settled.bind (perform_settled h policy hread a) (fun r _ => ?_) fun _ he => he.elim
      exact Settled.bind (Settled.askSafe fun _ he => he) (fun _ _ => Settled.done trivial) fun _ he => he.elim

/-! ## Values that do not convert -/

/-- No run of the program returns. -/
def Stuck (p : Prog F α) : Prop :=
  ∀ escaped, tracks possible escapes p escaped fun _ r => ¬ Returns r

theorem tracks_true {p : Prog F α} {escaped : Bool} :
    tracks possible escapes p escaped fun _ _ => True := by
  induction p generalizing escaped with
  | done a => trivial
  | raise e => trivial
  | call c next ih => exact ⟨fun a _ => ih _, fun e _ => ih _⟩
  | undo p ih => exact ih

theorem Stuck.after {p : Prog F α} {g : α → Prog F β} (h : ∀ a, Stuck (g a)) : Stuck (p >>= g) := by
  intro escaped
  refine tracks_bind (tracks_mono (fun escaped r _ => ?_) tracks_true)
  cases r with
  | ok a => exact h a escaped
  | error e => exact id

theorem Stuck.before {p : Prog F α} {g : α → Prog F β} (h : Stuck p) : Stuck (p >>= g) := by
  intro escaped
  refine tracks_bind (tracks_mono (fun escaped r hr => ?_) (h escaped))
  cases r with
  | ok a => exact absurd trivial hr
  | error e => exact id

theorem Stuck.raise (e : Exc) : Stuck (.raise e : Prog F α) := fun _ => id

theorem Stuck.lift {x : Except Exc α} {e : Exc} (h : x = .error e) : Stuck (lift x : Prog F α) := by
  subst h
  exact Stuck.raise e

theorem Stuck.catching {classes : List ExcClass} {p : Prog F α} {handler : Exc → Prog F α}
    (hp : Stuck p) (hhandler : ∀ e, Stuck (handler e)) : Stuck (catching classes p handler) := by
  intro escaped
  refine tracks_orElse (tracks_mono (fun escaped r hr => ?_) (hp escaped))
  cases r with
  | ok a => exact absurd trivial hr
  | error e =>
      show tracks _ _ (if e.isIn classes = true then handler e else .raise e) escaped _
      split
      · exact hhandler e escaped
      · exact id

theorem resultOf_stuck {state : Mapping F} (h : ¬ Readable state) (report : Report F) :
    Stuck (resultOf state report) := by
  refine Stuck.after fun stamp => Stuck.after fun _ => Stuck.before ?_
  cases hscore : score state with
  | error e => exact Stuck.lift (e := e.toExc) (by rw [result, hscore]; rfl)
  | ok m =>
      cases hpid : pid state with
      | error e => exact Stuck.lift (e := e.toExc) (by rw [result, hscore, hpid]; rfl)
      | ok n => exact absurd ⟨⟨n, hpid⟩, m, hscore⟩ h

theorem perform_stuck (h : Platform) (policy : ResponsePolicy) {state : Mapping F}
    (hread : ¬ Readable state) (a : Action) : Stuck (perform h policy state a) := by
  have hreport : ∀ automatic a, Stuck (reportAction automatic state a) := fun _ _ =>
    Stuck.after fun report => resultOf_stuck hread report
  have hrefuse : ∀ text, Stuck (refuse text : Prog F (ActionResult F)) := fun _ => Stuck.raise _
  cases a with
  | terminate =>
      dsimp only [perform]
      split
      · refine Stuck.catching (Stuck.after fun binding => ?_) fun _ => resultOf_stuck hread _
        cases hprocess : binding.process with
        | none => exact hrefuse _
        | some p => exact Stuck.after fun details => resultOf_stuck hread _
      · exact hreport _ _
  | quarantine =>
      dsimp only [perform]
      split
      · refine Stuck.catching (Stuck.after fun binding => ?_) fun _ =>
          Stuck.before (resultOf_stuck hread _)
        cases hfile : binding.file with
        | none => exact hrefuse _
        | some file =>
            dsimp only
            split
            · exact hrefuse _
            · exact Stuck.after fun termination => Stuck.after fun record =>
                Stuck.before (resultOf_stuck hread _)
      · exact hreport _ _
  | deny => exact Stuck.after fun _ => hreport _ _
  | _ => exact hreport _ _

theorem executeRecommendation_stuck (h : Platform) (policy : ResponsePolicy) {state : Mapping F}
    (hread : ¬ Readable state) : Stuck (executeRecommendation h policy state) := by
  refine Stuck.after fun _ => Stuck.after fun entered => ?_
  cases entered with
  | answered report => exact resultOf_stuck hread report
  | acting a previous => exact Stuck.before (perform_stuck h policy hread a)

end Elyra.Response.Steps
