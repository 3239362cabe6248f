import Elyra.Python.After
import Elyra.Python.Builtins

set_option autoImplicit false

/-! # Exceptions

An exception is its class and its text. The classes are the built-in ones that an `except` clause of
the daemon names, the daemon's own subclasses of `RuntimeError`, and `other` for every class that no
clause names. `isA` is `isinstance` on them.

A statement is a `Py σ α`: it changes a state `σ`, which an exception leaves as it is, and returns or
raises. `tryExcept` and `tryFinally` are the two forms of the `try` statement. -/

namespace Elyra.Python

inductive ExcClass where
  | osError
  | fileNotFoundError
  | permissionError
  | processLookupError
  | timeoutError
  | valueError
  | typeError
  | runtimeError
  | auditIntegrityError
  | auditSecurityError
  | responseSafetyError
  | quarantineError
  | other (name : PyStr)
  deriving DecidableEq, Repr

/-- The direct base class among those modelled. -/
def ExcClass.base : ExcClass → Option ExcClass
  | .fileNotFoundError => some .osError
  | .permissionError => some .osError
  | .processLookupError => some .osError
  | .timeoutError => some .osError
  | .auditIntegrityError => some .runtimeError
  | .auditSecurityError => some .runtimeError
  | .responseSafetyError => some .runtimeError
  | .quarantineError => some .runtimeError
  | _ => none

/-- `issubclass`. -/
def ExcClass.isA (c d : ExcClass) : Bool := c == d || c.base == some d

structure Exc where
  cls : ExcClass
  text : PyStr
  deriving DecidableEq, Repr

/-- Whether `except (c, d, …)` catches the exception. -/
def Exc.isIn (e : Exc) (classes : List ExcClass) : Bool := classes.any e.cls.isA

/-- `type(exc).__name__`. -/
def ExcClass.name : ExcClass → PyStr
  | .osError => py "OSError"
  | .fileNotFoundError => py "FileNotFoundError"
  | .permissionError => py "PermissionError"
  | .processLookupError => py "ProcessLookupError"
  | .timeoutError => py "TimeoutError"
  | .valueError => py "ValueError"
  | .typeError => py "TypeError"
  | .runtimeError => py "RuntimeError"
  | .auditIntegrityError => py "AuditIntegrityError"
  | .auditSecurityError => py "AuditSecurityError"
  | .responseSafetyError => py "ResponseSafetyError"
  | .quarantineError => py "QuarantineError"
  | .other name => name

/-- The exceptions of the conversions. -/
def PyExc.toExc : PyExc → Exc
  | .valueError => ⟨.valueError, []⟩
  | .typeError => ⟨.typeError, []⟩
  | .overflowError => ⟨.other (py "OverflowError"), []⟩
  | .assertionError => ⟨.other (py "AssertionError"), []⟩
  | .attributeError => ⟨.other (py "AttributeError"), []⟩

/-! ## Statements -/

/-- A statement that changes a state `σ` and returns or raises. -/
abbrev Py (σ α : Type) := EStateM Exc σ α

namespace Py

variable {σ α β : Type}

/-- An expression, which changes nothing. -/
def eval (x : Except Exc α) : Py σ α := fun s =>
  match x with
  | .ok a => .ok a s
  | .error e => .error e s

/-- `try: body except classes as exc: handler`. -/
def tryExcept (body : Py σ α) (classes : List ExcClass) (handler : Exc → Py σ α) : Py σ α :=
  fun s =>
    match body s with
    | .ok a s' => .ok a s'
    | .error e s' => if e.isIn classes then handler e s' else .error e s'

/-- `try: body finally: last`. An exception of `last` replaces the one of `body`. -/
def tryFinally (body : Py σ α) (last : Py σ Unit) : Py σ α := fun s =>
  match body s with
  | .ok a s' =>
      match last s' with
      | .ok _ s'' => .ok a s''
      | .error e s'' => .error e s''
  | .error e s' =>
      match last s' with
      | .ok _ s'' => .error e s''
      | .error e' s'' => .error e' s''

/-- The state a statement leaves, however it ends. -/
def final (x : Py σ α) (s : σ) : σ :=
  match x s with
  | .ok _ s' => s'
  | .error _ s' => s'

/-- The exception a statement ends with, if it does. -/
def raised (x : Py σ α) (s : σ) : Option Exc :=
  match x s with
  | .ok _ _ => none
  | .error e _ => some e

theorem final_of_ok {x : Py σ α} {s s' : σ} {a : α} (h : x s = .ok a s') : final x s = s' := by
  rw [final, h]

theorem final_of_error {x : Py σ α} {s s' : σ} {e : Exc} (h : x s = .error e s') :
    final x s = s' := by
  rw [final, h]

theorem bind_of_ok {x : Py σ α} {f : α → Py σ β} {s s' : σ} {a : α} (h : x s = .ok a s') :
    (x >>= f) s = f a s' := by
  simp only [Bind.bind, EStateM.bind, h]

theorem bind_of_error {x : Py σ α} {f : α → Py σ β} {s s' : σ} {e : Exc}
    (h : x s = .error e s') : (x >>= f) s = .error e s' := by
  simp only [Bind.bind, EStateM.bind, h]

theorem final_bind_of_ok {x : Py σ α} {f : α → Py σ β} {s s' : σ} {a : α}
    (h : x s = .ok a s') : final (x >>= f) s = final (f a) s' := by
  rw [final, bind_of_ok h, final]

theorem tryExcept_of_ok {body : Py σ α} {classes : List ExcClass} {handler : Exc → Py σ α}
    {s s' : σ} {a : α} (h : body s = .ok a s') : tryExcept body classes handler s = .ok a s' := by
  simp only [tryExcept, h]

theorem final_tryFinally (body : Py σ α) (last : Py σ Unit) (s : σ) :
    final (tryFinally body last) s = final last (final body s) := by
  unfold final tryFinally
  cases body s with
  | ok a s' => cases hlast : last s' <;> simp [hlast]
  | error e s' => cases hlast : last s' <;> simp [hlast]

theorem final_tryExcept_of_ok {body : Py σ α} {classes : List ExcClass} {handler : Exc → Py σ α}
    {s s' : σ} {a : α} (h : body s = .ok a s') : final (tryExcept body classes handler) s = s' := by
  simp [final, tryExcept, h]

theorem final_tryExcept_of_error {body : Py σ α} {classes : List ExcClass}
    {handler : Exc → Py σ α} {s s' : σ} {e : Exc} (h : body s = .error e s') :
    final (tryExcept body classes handler) s =
      if e.isIn classes then final (handler e) s' else s' := by
  unfold final tryExcept
  rw [h]
  by_cases he : e.isIn classes = true
  · simp only [he, if_true]
  · simp only [he, Bool.false_eq_true, if_false]

/-! ### What a statement keeps

`Keeps I x` says that `I` holds after `x` when it held before, whether `x` returned or raised: an
invariant has to survive the exceptions too. -/

def Keeps (I : σ → Prop) (x : Py σ α) : Prop := ∀ s, I s → I (final x s)

variable {I : σ → Prop}

theorem Keeps.of_pure (a : α) : Keeps I (pure a : Py σ α) := fun _ h => h

theorem Keeps.of_get : Keeps I (get : Py σ σ) := fun _ h => h

theorem Keeps.eval (x : Except Exc α) : Keeps I (Py.eval x : Py σ α) := by
  intro s h
  cases x with
  | ok a => exact h
  | error e => exact h

theorem Keeps.of_modify {f : σ → σ} (hf : ∀ s, I s → I (f s)) :
    Keeps I (modify f : Py σ PUnit) := fun s h => hf s h

theorem Keeps.bind {x : Py σ α} {f : α → Py σ β} (hx : Keeps I x) (hf : ∀ a, Keeps I (f a)) :
    Keeps I (x >>= f) := by
  intro s h
  have hkept := hx s h
  unfold final at hkept ⊢
  simp only [Bind.bind, EStateM.bind]
  cases hrun : x s with
  | ok a s' =>
      rw [hrun] at hkept
      exact hf a s' hkept
  | error e s' =>
      rw [hrun] at hkept
      exact hkept

theorem Keeps.tryExcept {body : Py σ α} {classes : List ExcClass} {handler : Exc → Py σ α}
    (hbody : Keeps I body) (hhandler : ∀ e, Keeps I (handler e)) :
    Keeps I (Py.tryExcept body classes handler) := by
  intro s h
  have hkept := hbody s h
  cases hrun : body s with
  | ok a s' =>
      rw [final_tryExcept_of_ok hrun]
      rw [final, hrun] at hkept
      exact hkept
  | error e s' =>
      rw [final_tryExcept_of_error hrun]
      rw [final, hrun] at hkept
      split
      · exact hhandler e s' hkept
      · exact hkept

end Py

end Elyra.Python
