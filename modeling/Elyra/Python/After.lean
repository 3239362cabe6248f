import Mathlib.Tactic

set_option autoImplicit false

/-! # Computations with a state that raise

A computation in `EStateM` may raise after it has changed the state, and the change stays. `After x s ret
exc` says what holds once `x` has run from `s`: `ret` of what it returns and the new state, `exc` of what
it raises and the state then. -/

namespace Elyra.Python

variable {ε σ α β : Type}

theorem run_get (s : σ) : (get : EStateM ε σ σ) s = .ok s s := rfl

theorem run_set (s s' : σ) : (set s' : EStateM ε σ PUnit) s = .ok ⟨⟩ s' := rfl

theorem run_modify (f : σ → σ) (s : σ) : (modify f : EStateM ε σ PUnit) s = .ok ⟨⟩ (f s) := rfl

/-- `ret` if `x` returns from `s`, `exc` if it raises. Irreducible, so that nothing runs `x` by itself. -/
@[irreducible] def After (x : EStateM ε σ α) (s : σ) (ret : α → σ → Prop) (exc : ε → σ → Prop) : Prop :=
  match x s with
  | .ok a s' => ret a s'
  | .error e s' => exc e s'

namespace After

variable {s : σ} {ret ret' : α → σ → Prop} {exc exc' : ε → σ → Prop}

theorem mono {x : EStateM ε σ α} (h : After x s ret exc) (hret : ∀ a s', ret a s' → ret' a s')
    (hexc : ∀ e s', exc e s' → exc' e s') : After x s ret' exc' := by
  unfold After at h ⊢
  cases hx : x s with
  | ok a s' =>
      rw [hx] at h
      exact hret a s' h
  | error e s' =>
      rw [hx] at h
      exact hexc e s' h

/-- A step, and then the rest from whatever state the step leaves. -/
theorem bind {x : EStateM ε σ α} {f : α → EStateM ε σ β} {ret' : β → σ → Prop} (h : After x s ret exc)
    (hf : ∀ a s', ret a s' → After (f a) s' ret' exc) : After (x >>= f) s ret' exc := by
  unfold After at h hf ⊢
  simp only [Bind.bind, EStateM.bind]
  cases hx : x s with
  | ok a s' =>
      rw [hx] at h
      exact hf a s' h
  | error e s' =>
      rw [hx] at h
      exact h

theorem pure {a : α} (h : ret a s) : After (Pure.pure a : EStateM ε σ α) s ret exc := by
  unfold After
  exact h

theorem throw {e : ε} (h : exc e s) : After (MonadExcept.throw e : EStateM ε σ α) s ret exc := by
  unfold After
  exact h

theorem update {f : σ → σ} {ret : Unit → σ → Prop} (h : ret () (f s)) :
    After (modify f : EStateM ε σ Unit) s ret exc := by
  unfold After
  exact h

/-- A loop that hands a value from one turn to the next. -/
theorem foldlM {γ : Type} {f : β → γ → EStateM ε σ β} {exc : ε → σ → Prop}
    (inv : List γ → β → σ → Prop) {xs : List γ} {b : β} {s : σ} (h : inv [] b s)
    (hstep : ∀ done x rest b s, xs = done ++ x :: rest → inv done b s →
      After (f b x) s (inv (done ++ [x])) exc) :
    After (xs.foldlM f b) s (inv xs) exc := by
  suffices ∀ done rest b s, xs = done ++ rest → inv done b s →
      After (rest.foldlM f b) s (inv xs) exc from this [] xs b s rfl h
  intro done rest
  induction rest generalizing done with
  | nil =>
      intro b s hxs hinv
      obtain rfl : xs = done := by simpa using hxs
      exact pure hinv
  | cons x rest ih =>
      intro b s hxs hinv
      rw [List.foldlM_cons]
      refine (hstep done x rest b s hxs hinv).bind fun b' s' hinv' => ?_
      exact ih (done ++ [x]) b' s' (by rw [hxs, List.append_assoc]; rfl) hinv'

end After

end Elyra.Python
