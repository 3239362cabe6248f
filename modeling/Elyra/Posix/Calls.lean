import Elyra.Posix.Program

set_option autoImplicit false

/-! # Where a run makes a call

`wp` speaks of the states a run passes through and of its end. `Before` speaks of the states in which
it makes its calls: it is put together from the parts of a program, with `wp` for what is known where
the next part begins. -/

namespace Elyra.Posix.Program

variable {S : Interface} {E E' α β σ : Type} {M : Machine S σ} {A : S.Call → σ → Prop} {b : Faults}
  {s : σ}

/-- A run comes to the call in the state. -/
def Reaches (M : Machine S σ) (b : Faults) (p : Program S E α) (s : σ) (c : S.Call) (s' : σ) : Prop :=
  ∃ b' next, Steps M b p s b' (.call c next) s'

/-- Wherever a run makes a call, the state is one for it. -/
def Before (M : Machine S σ) (A : S.Call → σ → Prop) : Program S E α → Faults → σ → Prop
  | .done _, _, _ => True
  | .raise _, _, _ => True
  | .call c next, b, s =>
      A c s ∧ (∀ r s', M.answers c s r s' → Before M A (next r) b s') ∧
        ∀ e, b = .once → M.fails c e → Before M A (next (.error e)) .never s
  | .undo p, _, s => Before M A p .never s

theorem before_step {p p' : Program S E α} {b' : Faults} {s' : σ} (h : Before M A p b s)
    (hs : Step M b p s b' p' s') : Before M A p' b' s' := by
  cases hs with
  | answer ha => exact h.2.1 _ _ ha
  | fail hf => exact h.2.2 _ rfl hf
  | undo => exact h

/-- The states in which the calls are made. -/
theorem before_reaches {p : Program S E α} {c : S.Call} {s' : σ} (h : Before M A p b s)
    (hr : Reaches M b p s c s') : A c s' := by
  obtain ⟨b', next, hsteps⟩ := hr
  generalize hq : Program.call c next = q at hsteps
  induction hsteps with
  | refl =>
      subst hq
      exact h.1
  | step hstep _ ih => exact ih (before_step h hstep) hq

/-- The calls of a program that makes no other. -/
theorem before_only {P : S.Call → Prop} {p : Program S E α} (hp : Only P p)
    (hA : ∀ c s, P c → A c s) : Before M A p b s := by
  induction p generalizing b s with
  | done a => trivial
  | raise e => trivial
  | call c next ih =>
      exact ⟨hA c s hp.1, fun r s' _ => ih r (hp.2 r), fun e _ _ => ih _ (hp.2 _)⟩
  | undo p ih => exact ih hp

/-- A call is made in a state that the run passes through. -/
theorem before_of_wp {I : σ → Prop} {p : Program S E α} {Q : Faults → Except E α → σ → Prop}
    (h : wp M I p b Q s) (hA : ∀ c s, I s → A c s) : Before M A p b s := by
  induction p generalizing b s with
  | done a => trivial
  | raise e => trivial
  | call c next ih =>
      exact ⟨hA c s h.1, fun r s' hr => ih r (h.2.1 r s' hr), fun e hb hf => ih _ (h.2.2 e hb hf)⟩
  | undo p ih => exact ih h

theorem before_bind {p : Program S E α} {f : α → Program S E β} (hp : Before M A p b s)
    (hf : wp M (fun _ => True) p b (fun b' x s' => ∀ a, x = .ok a → Before M A (f a) b' s') s) :
    Before M A (p >>= f) b s := by
  show Before M A (p.bind f) b s
  induction p generalizing b s with
  | done a => exact hf.2 a rfl
  | raise e => trivial
  | call c next ih =>
      exact ⟨hp.1, fun r s' hr => ih r (hp.2.1 r s' hr) (hf.2.1 r s' hr),
        fun e hb hc => ih _ (hp.2.2 e hb hc) (hf.2.2 e hb hc)⟩
  | undo p ih => exact ih hp hf

/-- What comes after may be entered in any state. -/
theorem before_then {p : Program S E α} {f : α → Program S E β} (hp : Before M A p b s)
    (hf : ∀ a b s, Before M A (f a) b s) : Before M A (p >>= f) b s := by
  show Before M A (p.bind f) b s
  induction p generalizing b s with
  | done a => exact hf a b s
  | raise e => trivial
  | call c next ih =>
      exact ⟨hp.1, fun r s' hr => ih r (hp.2.1 r s' hr), fun e hb hc => ih _ (hp.2.2 e hb hc)⟩
  | undo p ih => exact ih hp

theorem before_orElse {p : Program S E α} {handler : E → Program S E' α} (hp : Before M A p b s)
    (hh : ∀ e b s, Before M A (handler e) b s) : Before M A (p.orElse handler) b s := by
  induction p generalizing b s with
  | done a => trivial
  | raise e => exact hh e b s
  | call c next ih =>
      exact ⟨hp.1, fun r s' hr => ih r (hp.2.1 r s' hr), fun e hb hc => ih _ (hp.2.2 e hb hc)⟩
  | undo p ih => exact ih hp

/-! ## Driving a program to a call -/

variable {τ : Type} {view : τ → σ}

/-- The first such call under a driver, and the state in which it is made. -/
def driveTo (D : Driver M τ view) (P : S.Call → Bool) : Program S E α → τ → Option (S.Call × τ)
  | .done _, _ => none
  | .raise _, _ => none
  | .undo _, _ => none
  | .call c next, t =>
      if P c then some (c, t)
      else if D.valid c t then driveTo D P (next (D.reply c t).1) (D.reply c t).2
      else none

theorem driveTo_reaches (D : Driver M τ view) {P : S.Call → Bool} {p : Program S E α} {t t' : τ}
    {c : S.Call} (h : driveTo D P p t = some (c, t')) :
    P c = true ∧ Reaches M b p (view t) c (view t') := by
  induction p generalizing t with
  | done a => exact nomatch h
  | raise e => exact nomatch h
  | undo p => exact nomatch h
  | call c₀ next ih =>
      rw [driveTo] at h
      split at h
      · next hP =>
        cases h
        exact ⟨hP, b, next, .refl⟩
      · split at h
        · next hv =>
          obtain ⟨hP, b', next', hsteps⟩ := ih _ h
          exact ⟨hP, b', next', .step (.answer (D.sound c₀ t hv)) hsteps⟩
        · exact nomatch h

end Elyra.Posix.Program
