import Elyra.Posix.Storm

set_option autoImplicit false

/-! # Runs in an environment

`execute` lets an environment answer a program's calls. If its answers in that run are those of a
machine (`Meets`, and `Weathers` in a storm), the run is one of the machine's. -/

namespace Elyra.Posix.Program

variable {S : Interface} {E α σ τ : Type}
  {env : Nat → (c : S.Call) → σ → Except S.Failure (S.Answer c) × σ}

/-- In its run the program gets the machine's answers, but for the failures that are left; none is
    left under `undo`. -/
def Meets (M : Machine S σ) (env : Nat → (c : S.Call) → σ → Except S.Failure (S.Answer c) × σ) :
    Program S E α → Faults → Nat → σ → Prop
  | .done _, _, _, _ => True
  | .raise _, _, _, _ => True
  | .call c next, b, n, s =>
      M.answers c s (env n c s).1 (env n c s).2 ∧
          Meets M env (next (env n c s).1) b (n + 1) (env n c s).2 ∨
        b = .once ∧ (∃ f, M.fails c f ∧ env n c s = (.error f, s)) ∧
          Meets M env (next (env n c s).1) .never (n + 1) s
  | .undo p, _, n, s => Meets M env p .never n s

/-- The same on a machine with a state of its own, of which the environment sees the `view`. -/
def Weathers (M : Machine S τ) (calm : Machine S σ) (view : τ → σ)
    (env : Nat → (c : S.Call) → σ → Except S.Failure (S.Answer c) × σ) :
    Program S E α → Nat → τ → Prop
  | .done _, _, _ => True
  | .raise _, _, _ => True
  | .call c next, n, t =>
      ∃ t', M.answers c t (env n c (view t)).1 t' ∧ view t' = (env n c (view t)).2 ∧
        Weathers M calm view env (next (env n c (view t)).1) (n + 1) t'
  | .undo p, n, t => Meets calm env p .never n (view t)

variable {M : Machine S σ} {b : Faults} {n : Nat} {s : σ}

theorem Meets.ends {p : Program S E α} (h : Meets M env p b n s) :
    Ends M b p s (execute env p n s).1 (execute env p n s).2 := by
  induction p generalizing b n s with
  | done a => exact ⟨b, .refl⟩
  | raise e => exact ⟨b, .refl⟩
  | call c next ih =>
      rcases h with ⟨hanswer, hnext⟩ | ⟨rfl, ⟨f, hfails, hf⟩, hnext⟩
      · obtain ⟨b', hsteps⟩ := ih _ hnext
        exact ⟨b', .step (.answer hanswer) hsteps⟩
      · rw [execute]
        rw [hf] at hnext ⊢
        obtain ⟨b', hsteps⟩ := ih _ hnext
        exact ⟨b', .step (.fail hfails) hsteps⟩
  | undo p ih =>
      obtain ⟨b', hsteps⟩ := ih h
      exact ⟨b', .step .undo hsteps⟩

theorem Weathers.storms {M : Machine S τ} {calm : Machine S σ} {view : τ → σ} {t : τ}
    {p : Program S E α} (h : Weathers M calm view env p n t) :
    Storms M calm view p t (execute env p n (view t)).1 (execute env p n (view t)).2 := by
  induction p generalizing n t with
  | done a => exact .done
  | raise e => exact .raise
  | call c next ih =>
      obtain ⟨t', hanswer, hview, hnext⟩ := h
      refine .call hanswer ?_
      rw [execute, ← hview]
      exact ih _ hnext
  | undo p ih => exact .undo h.ends

/-! ## Runs come to an end -/

/-- Every run goes on until it has ended, and none goes on for ever. -/
inductive Halts (M : Machine S σ) : Faults → Program S E α → σ → Prop
  | ended {b r s} : Halts M b (ofResult r) s
  | goes {b p s} : (∃ b' p' s', Step M b p s b' p' s') →
      (∀ b' p' s', Step M b p s b' p' s' → Halts M b' p' s') → Halts M b p s

/-- A program that is always answered comes to an end, whatever the answers are. -/
theorem halts (h : ∀ c s, ∃ r s', M.answers c s r s') (p : Program S E α) (b : Faults) (s : σ) :
    Halts M b p s := by
  induction p generalizing b s with
  | done a => exact .ended (r := .ok a)
  | raise e => exact .ended (r := .error e)
  | call c next ih =>
      obtain ⟨r, s', ha⟩ := h c s
      refine .goes ⟨b, next r, s', .answer ha⟩ fun b' p' s' hstep => ?_
      cases hstep with
      | answer _ => exact ih _ _ _
      | fail _ => exact ih _ _ _
  | undo p ih =>
      refine .goes ⟨.never, p, s, .undo⟩ fun b' p' s' hstep => ?_
      cases hstep
      exact ih _ _

end Elyra.Posix.Program
