import Mathlib.Logic.Relation
import Mathlib.Tactic.Common

set_option autoImplicit false

/-! # Programs that call a failing interface

A program calls an interface step by step; a call is answered or fails, and the program goes on with
what it got. What a call does to the state is a relation (`Machine.answers`), so an answer may be
chosen freely among several, and besides the machine's own answers a call may be made to fail
without any effect (`Machine.fails`), never or once in a run (`Faults`). `undo` marks the part of a
program that takes back what it did; no failure is injected there.

`Visits` are the states a run passes through, the crash points among them, and `Ends` how a run ends.
`wp` is the weakest precondition for both at once: an invariant for the states visited and a
postcondition for the end. -/

namespace Elyra.Posix

/-- Calls, the answer of each, and the ways a call fails. -/
structure Interface where
  Call : Type
  Answer : Call → Type
  Failure : Type

inductive Program (S : Interface) (E α : Type) where
  | done (a : α)
  | raise (e : E)
  | call (c : S.Call) (next : Except S.Failure (S.Answer c) → Program S E α)
  | undo (p : Program S E α)

/-- How often a run may be hit by a failure that is not the machine's own. -/
inductive Faults where
  | never
  | once
  deriving DecidableEq, Repr

structure Machine (S : Interface) (σ : Type) where
  answers : (c : S.Call) → σ → Except S.Failure (S.Answer c) → σ → Prop
  fails : S.Call → S.Failure → Prop

namespace Program

variable {S : Interface} {E E' α β σ : Type}

def bind (p : Program S E α) (f : α → Program S E β) : Program S E β :=
  match p with
  | .done a => f a
  | .raise e => .raise e
  | .call c next => .call c fun r => (next r).bind f
  | .undo p => .undo (p.bind f)

instance : Monad (Program S E) where
  pure := .done
  bind := Program.bind

/-- `try: p except e: handler e`, for a handler that may raise again. -/
def orElse (p : Program S E α) (handler : E → Program S E' α) : Program S E' α :=
  match p with
  | .done a => .done a
  | .raise e => handler e
  | .call c next => .call c fun r => (next r).orElse handler
  | .undo p => .undo (p.orElse handler)

/-! ## Runs -/

/-- One step, with the faults that are left after it. -/
inductive Step (M : Machine S σ) :
    Faults → Program S E α → σ → Faults → Program S E α → σ → Prop
  | answer {b c next s r s'} : M.answers c s r s' → Step M b (.call c next) s b (next r) s'
  | fail {c next s f} : M.fails c f → Step M .once (.call c next) s .never (next (.error f)) s
  | undo {b p s} : Step M b (.undo p) s .never p s

inductive Steps (M : Machine S σ) :
    Faults → Program S E α → σ → Faults → Program S E α → σ → Prop
  | refl {b p s} : Steps M b p s b p s
  | step {b p s b' p' s' b'' p'' s''} : Step M b p s b' p' s' → Steps M b' p' s' b'' p'' s'' →
      Steps M b p s b'' p'' s''

/-- The state is one that a run of the program passes through. -/
def Visits (M : Machine S σ) (b : Faults) (p : Program S E α) (s s' : σ) : Prop :=
  ∃ b' p', Steps M b p s b' p' s'

/-- What a run ends as. -/
def ofResult : Except E α → Program S E α
  | .ok a => .done a
  | .error e => .raise e

/-- A run of the program ends in the state, returning or raising. -/
def Ends (M : Machine S σ) (b : Faults) (p : Program S E α) (s : σ) (r : Except E α) (s' : σ) :
    Prop :=
  ∃ b', Steps M b p s b' (ofResult r) s'

/-! ## Weakest preconditions -/

/-- Every run keeps `I` in the states it visits, and ends as `Q` says. -/
def wp (M : Machine S σ) (I : σ → Prop) :
    Program S E α → Faults → (Faults → Except E α → σ → Prop) → σ → Prop
  | .done a, b, Q, s => I s ∧ Q b (.ok a) s
  | .raise e, b, Q, s => I s ∧ Q b (.error e) s
  | .call c next, b, Q, s =>
      I s ∧ (∀ r s', M.answers c s r s' → wp M I (next r) b Q s') ∧
        ∀ f, b = .once → M.fails c f → wp M I (next (.error f)) .never Q s
  | .undo p, _, Q, s => wp M I p .never Q s

variable {M : Machine S σ} {I : σ → Prop} {b : Faults} {s : σ}

theorem wp_mono {p : Program S E α} {Q Q' : Faults → Except E α → σ → Prop}
    (hQ : ∀ b r s, Q b r s → Q' b r s) (h : wp M I p b Q s) : wp M I p b Q' s := by
  induction p generalizing b s with
  | done a => exact ⟨h.1, hQ _ _ _ h.2⟩
  | raise e => exact ⟨h.1, hQ _ _ _ h.2⟩
  | call c next ih =>
      exact ⟨h.1, fun r s' ha => ih r (h.2.1 r s' ha), fun f hb hf => ih _ (h.2.2 f hb hf)⟩
  | undo p ih => exact ih h

/-- The postcondition that goes on with `f` when the program returns. -/
def thenDo (M : Machine S σ) (I : σ → Prop) (f : α → Program S E β)
    (Q : Faults → Except E β → σ → Prop) : Faults → Except E α → σ → Prop
  | b, .ok a, s => wp M I (f a) b Q s
  | b, .error e, s => Q b (.error e) s

theorem wp_inv {p : Program S E α} {Q : Faults → Except E α → σ → Prop} (h : wp M I p b Q s) :
    I s := by
  induction p generalizing b with
  | done a => exact h.1
  | raise e => exact h.1
  | call c next ih => exact h.1
  | undo p ih => exact ih h

theorem wp_bind {p : Program S E α} {f : α → Program S E β}
    {Q : Faults → Except E β → σ → Prop} (h : wp M I p b (thenDo M I f Q) s) :
    wp M I (p >>= f) b Q s := by
  show wp M I (p.bind f) b Q s
  induction p generalizing b s with
  | done a => exact h.2
  | raise e => exact h
  | call c next ih =>
      exact ⟨h.1, fun r s' ha => ih r (h.2.1 r s' ha), fun g hb hf => ih _ (h.2.2 g hb hf)⟩
  | undo p ih => exact ih h

/-- The postcondition that goes on with the handler when the program raises. -/
def orHandle (M : Machine S σ) (I : σ → Prop) (handler : E → Program S E' α)
    (Q : Faults → Except E' α → σ → Prop) : Faults → Except E α → σ → Prop
  | b, .ok a, s => Q b (.ok a) s
  | b, .error e, s => wp M I (handler e) b Q s

theorem wp_orElse {p : Program S E α} {handler : E → Program S E' α}
    {Q : Faults → Except E' α → σ → Prop} (h : wp M I p b (orHandle M I handler Q) s) :
    wp M I (p.orElse handler) b Q s := by
  induction p generalizing b s with
  | done a => exact h
  | raise e => exact h.2
  | call c next ih =>
      exact ⟨h.1, fun r s' ha => ih r (h.2.1 r s' ha), fun f hb hf => ih _ (h.2.2 f hb hf)⟩
  | undo p ih => exact ih h

/-! ## Soundness -/

theorem wp_step {p p' : Program S E α} {b' : Faults} {s' : σ}
    {Q : Faults → Except E α → σ → Prop} (h : wp M I p b Q s) (hstep : Step M b p s b' p' s') :
    wp M I p' b' Q s' := by
  cases hstep with
  | answer ha => exact h.2.1 _ _ ha
  | fail hf => exact h.2.2 _ rfl hf
  | undo => exact h

theorem wp_steps {p p' : Program S E α} {b' : Faults} {s' : σ}
    {Q : Faults → Except E α → σ → Prop} (h : wp M I p b Q s) (hsteps : Steps M b p s b' p' s') :
    wp M I p' b' Q s' := by
  induction hsteps with
  | refl => exact h
  | step hstep _ ih => exact ih (wp_step h hstep)

/-- The invariant holds in every state visited. -/
theorem wp_visits {p : Program S E α} {Q : Faults → Except E α → σ → Prop} {s' : σ}
    (h : wp M I p b Q s) (hv : Visits M b p s s') : I s' := by
  obtain ⟨b', p', hsteps⟩ := hv
  exact wp_inv (wp_steps h hsteps)

/-- The postcondition holds at every end. -/
theorem wp_ends {p : Program S E α} {Q : Faults → Except E α → σ → Prop} {r : Except E α} {s' : σ}
    (h : wp M I p b Q s) (he : Ends M b p s r s') : ∃ b', Q b' r s' := by
  obtain ⟨b', hsteps⟩ := he
  cases r with
  | ok a => exact ⟨b', (wp_steps h hsteps).2⟩
  | error e => exact ⟨b', (wp_steps h hsteps).2⟩

/-! ## Composing runs -/

theorem Step.bind {p p' : Program S E α} {b' : Faults} {s' : σ} (g : α → Program S E β)
    (h : Step M b p s b' p' s') : Step M b (p >>= g) s b' (p' >>= g) s' := by
  cases h with
  | @answer b c next s r s' ha => exact @Step.answer _ _ _ _ M b c (fun r => next r >>= g) s r s' ha
  | @fail c next s f hf => exact @Step.fail _ _ _ _ M c (fun r => next r >>= g) s f hf
  | undo => exact .undo (p := p' >>= g)

theorem Steps.bind {p p' : Program S E α} {b' : Faults} {s' : σ} (g : α → Program S E β)
    (h : Steps M b p s b' p' s') : Steps M b (p >>= g) s b' (p' >>= g) s' := by
  induction h with
  | refl => exact .refl
  | step hstep _ ih => exact .step (hstep.bind g) ih

theorem Steps.trans {p p' p'' : Program S E α} {b' b'' : Faults} {s' s'' : σ}
    (h : Steps M b p s b' p' s') (h' : Steps M b' p' s' b'' p'' s'') :
    Steps M b p s b'' p'' s'' := by
  induction h with
  | refl => exact h'
  | step hstep _ ih => exact .step hstep (ih h')

/-- Where no failure is injected, none is left to be. -/
theorem Steps.never {p p' : Program S E α} {b' : Faults} {s' : σ} (h : Steps M b p s b' p' s')
    (hb : b = .never) : b' = .never := by
  induction h with
  | refl => exact hb
  | step hstep _ ih =>
      cases hstep with
      | answer => exact ih hb
      | fail => exact absurd hb (by simp)
      | undo => exact ih rfl

/-! ## Driving a program

A driver answers every call in one way, so that a run can be computed. It works on states `τ` of its
own, which may know more than the machine's, and says of each of its answers and failures whether the
machine has it. -/

/-- The answers of a machine chosen by a function. -/
structure Driver (M : Machine S σ) (τ : Type) (view : τ → σ) where
  reply : (c : S.Call) → τ → Except S.Failure (S.Answer c) × τ
  valid : S.Call → τ → Bool
  mayFail : S.Call → S.Failure → Bool
  sound : ∀ c t, valid c t = true → M.answers c (view t) (reply c t).1 (view (reply c t).2)
  fails : ∀ c e, mayFail c e = true → M.fails c e

/-- The faults a plan leaves. A plan is to let the `n`th call from now on fail. -/
def planned : Option (Nat × S.Failure) → Faults
  | none => .never
  | some _ => .once

variable {τ : Type} {view : τ → σ}

/-- The run under a driver and a plan; `none` where the driver gives an answer that the machine has
    not. -/
def drive (D : Driver M τ view) :
    Program S E α → Option (Nat × S.Failure) → τ → Option (Faults × Except E α × τ)
  | .done a, plan, t => some (planned plan, .ok a, t)
  | .raise e, plan, t => some (planned plan, .error e, t)
  | .call c next, some (0, e), t =>
      if D.mayFail c e then drive D (next (.error e)) none t else none
  | .call c next, some (n + 1, e), t =>
      if D.valid c t then drive D (next (D.reply c t).1) (some (n, e)) (D.reply c t).2 else none
  | .call c next, none, t =>
      if D.valid c t then drive D (next (D.reply c t).1) none (D.reply c t).2 else none
  | .undo p, _, t => drive D p none t

/-- **A driven run is a run of the machine.** -/
theorem drive_steps (D : Driver M τ view) {p : Program S E α} {plan : Option (Nat × S.Failure)}
    {t t' : τ} {b' : Faults} {r : Except E α} (h : drive D p plan t = some (b', r, t')) :
    Steps M (planned plan) p (view t) b' (ofResult r) (view t') := by
  induction p generalizing plan t with
  | done a =>
      simp only [drive, Option.some.injEq, Prod.mk.injEq] at h
      obtain ⟨rfl, rfl, rfl⟩ := h
      exact .refl
  | raise e =>
      simp only [drive, Option.some.injEq, Prod.mk.injEq] at h
      obtain ⟨rfl, rfl, rfl⟩ := h
      exact .refl
  | call c next ih =>
      rcases plan with - | ⟨- | n, e⟩
      · simp only [drive] at h
        split at h
        · next hv => exact .step (.answer (D.sound c t hv)) (ih _ h)
        · exact absurd h (by simp)
      · simp only [drive] at h
        split at h
        · next hf => exact .step (.fail (D.fails c e hf)) (ih _ h)
        · exact absurd h (by simp)
      · simp only [drive] at h
        split at h
        · next hv =>
          have hrest := ih _ h
          show Steps M .once _ _ b' (ofResult r) (view t')
          exact .step (.answer (D.sound c t hv)) hrest
        · exact absurd h (by simp)
  | undo p ih => exact .step .undo (ih h)

/-! ## Executing a program

An environment answers each call by a function of the call, its place in the run and the state. -/

/-- The run in an environment: how it ends, and the state. -/
def execute (env : Nat → (c : S.Call) → σ → Except S.Failure (S.Answer c) × σ) :
    Program S E α → Nat → σ → Except E α × σ
  | .done a, _, s => (.ok a, s)
  | .raise e, _, s => (.error e, s)
  | .call c next, n, s => execute env (next (env n c s).1) (n + 1) (env n c s).2
  | .undo p, n, s => execute env p n s

/-- The program makes no other calls than these. -/
def Only (P : S.Call → Prop) : Program S E α → Prop
  | .done _ => True
  | .raise _ => True
  | .call c next => P c ∧ ∀ r, Only P (next r)
  | .undo p => Only P p

variable {P : S.Call → Prop}

theorem Only.bind {p : Program S E α} {f : α → Program S E β} (hp : Only P p)
    (hf : ∀ a, Only P (f a)) : Only P (p >>= f) := by
  show Only P (p.bind f)
  induction p with
  | done a => exact hf a
  | raise e => trivial
  | call c next ih => exact ⟨hp.1, fun r => ih r (hp.2 r)⟩
  | undo p ih => exact ih hp

theorem Only.orElse {p : Program S E α} {handler : E → Program S E' α} (hp : Only P p)
    (hh : ∀ e, Only P (handler e)) : Only P (p.orElse handler) := by
  induction p with
  | done a => trivial
  | raise e => exact hh e
  | call c next ih => exact ⟨hp.1, fun r => ih r (hp.2 r)⟩
  | undo p ih => exact ih hp

/-- A program of calls that leave the state alone leaves it alone. -/
theorem execute_only {env : Nat → (c : S.Call) → σ → Except S.Failure (S.Answer c) × σ}
    (henv : ∀ n c s, P c → (env n c s).2 = s) {p : Program S E α} (hp : Only P p) (n : Nat) (s : σ) :
    (execute env p n s).2 = s := by
  induction p generalizing n with
  | done a => rfl
  | raise e => rfl
  | call c next ih =>
      rw [execute, henv n c s hp.1]
      exact ih _ (hp.2 _) (n + 1)
  | undo p ih => exact ih hp n

end Program

end Elyra.Posix
