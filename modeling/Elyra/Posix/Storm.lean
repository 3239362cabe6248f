import Elyra.Posix.Program

set_option autoImplicit false

/-! # Programs in a storm

Runs on two machines. Outside `undo` a stormy machine answers: it may fail any call, any number of
times, and others may act between two calls; its answers say so. What is under `undo` runs on a calm
machine without faults. The two machines have states of their own, and `view` is the calm machine's
part of the stormy one's.

`survives` is the weakest precondition for the results of such runs (`survives_storms`). -/

namespace Elyra.Posix.Program

variable {S : Interface} {E E' α β σ τ : Type}

/-- A run that ends in the state, returning or raising. -/
inductive Storms (M : Machine S τ) (calm : Machine S σ) (view : τ → σ) :
    Program S E α → τ → Except E α → σ → Prop
  | done {a t} : Storms M calm view (.done a) t (.ok a) (view t)
  | raise {e t} : Storms M calm view (.raise e) t (.error e) (view t)
  | call {c next t r t' x s} : M.answers c t r t' → Storms M calm view (next r) t' x s →
      Storms M calm view (.call c next) t x s
  | undo {p t x s} : Ends calm .never p (view t) x s → Storms M calm view (.undo p) t x s

/-- Every run ends as `Q` says, or as `R` says where it ends under `undo`. -/
def survives (M : Machine S τ) (calm : Machine S σ) (view : τ → σ) :
    Program S E α → (Except E α → τ → Prop) → (Except E α → σ → Prop) → τ → Prop
  | .done a, Q, _, t => Q (.ok a) t
  | .raise e, Q, _, t => Q (.error e) t
  | .call c next, Q, R, t => ∀ r t', M.answers c t r t' → survives M calm view (next r) Q R t'
  | .undo p, _, R, t => wp calm (fun _ => True) p .never (fun _ x s => R x s) (view t)

/-- The program makes only such calls, and has nothing to undo. -/
def Plain (P : S.Call → Prop) : Program S E α → Prop
  | .done _ => True
  | .raise _ => True
  | .call c next => P c ∧ ∀ r, Plain P (next r)
  | .undo _ => False

/-- Whatever the calls are answered, the values returned are such. -/
def Returns (V : α → Prop) : Program S E α → Prop
  | .done a => V a
  | .raise _ => True
  | .call _ next => ∀ r, Returns V (next r)
  | .undo p => Returns V p

section Plain

variable {P : S.Call → Prop} {U : α → Prop} {V : β → Prop}

theorem Plain.only {p : Program S E α} (hp : Plain P p) : Only P p := by
  induction p with
  | done a => trivial
  | raise e => trivial
  | call c next ih => exact ⟨hp.1, fun r => ih r (hp.2 r)⟩
  | undo p => exact hp.elim

theorem Plain.bind {p : Program S E α} {f : α → Program S E β} (hp : Plain P p)
    (hf : ∀ a, Plain P (f a)) : Plain P (p >>= f) := by
  show Plain P (p.bind f)
  induction p with
  | done a => exact hf a
  | raise e => trivial
  | call c next ih => exact ⟨hp.1, fun r => ih r (hp.2 r)⟩
  | undo p => exact hp.elim

theorem Plain.orElse {p : Program S E α} {handler : E → Program S E' α} (hp : Plain P p)
    (hh : ∀ e, Plain P (handler e)) : Plain P (p.orElse handler) := by
  induction p with
  | done a => trivial
  | raise e => exact hh e
  | call c next ih => exact ⟨hp.1, fun r => ih r (hp.2 r)⟩
  | undo p => exact hp.elim

theorem Returns.bind {p : Program S E α} {f : α → Program S E β} (hp : Returns U p)
    (hf : ∀ a, U a → Returns V (f a)) : Returns V (p >>= f) := by
  show Returns V (p.bind f)
  induction p with
  | done a => exact hf a hp
  | raise e => trivial
  | call c next ih => exact fun r => ih r (hp r)
  | undo p ih => exact ih hp

theorem returns_true (p : Program S E α) : Returns (fun _ => True) p := by
  induction p with
  | done a => trivial
  | raise e => trivial
  | call c next ih => exact ih
  | undo p ih => exact ih

end Plain

section Rules

variable {M : Machine S τ} {calm : Machine S σ} {view : τ → σ} {t : τ}
  {R : Except E α → σ → Prop}

theorem survives_mono {p : Program S E α} {Q Q' : Except E α → τ → Prop}
    (hQ : ∀ x t, Q x t → Q' x t) (h : survives M calm view p Q R t) :
    survives M calm view p Q' R t := by
  induction p generalizing t with
  | done a => exact hQ _ _ h
  | raise e => exact hQ _ _ h
  | call c next ih => exact fun r t' ha => ih r (h r t' ha)
  | undo p => exact h

/-- Going on after a part that has nothing to undo. -/
theorem survives_bind {p : Program S E β} {f : β → Program S E α} {Q : Except E α → τ → Prop}
    (h : survives M calm view p (fun x t =>
      match x with
      | .ok a => survives M calm view (f a) Q R t
      | .error e => Q (.error e) t) (fun _ _ => False) t) :
    survives M calm view (p >>= f) Q R t := by
  show survives M calm view (p.bind f) Q R t
  induction p generalizing t with
  | done a => exact h
  | raise e => exact h
  | call c next ih => exact fun r t' ha => ih r (h r t' ha)
  | undo p =>
      refine wp_bind (wp_mono ?_ h)
      exact fun _ _ _ hfalse => hfalse.elim

theorem survives_orElse {p : Program S E' α} {handler : E' → Program S E α}
    {Q : Except E α → τ → Prop}
    (h : survives M calm view p (fun x t =>
      match x with
      | .ok a => Q (.ok a) t
      | .error e => survives M calm view (handler e) Q R t) (fun _ _ => False) t) :
    survives M calm view (p.orElse handler) Q R t := by
  induction p generalizing t with
  | done a => exact h
  | raise e => exact h
  | call c next ih => exact fun r t' ha => ih r (h r t' ha)
  | undo p =>
      refine wp_orElse (wp_mono ?_ h)
      exact fun _ _ _ hfalse => hfalse.elim

/-- A program of calls that keep an invariant keeps it. -/
theorem survives_plain {P : S.Call → Prop} {p : Program S E α} {V : α → Prop} (hp : Plain P p)
    (hr : Returns V p) {J : τ → Prop}
    (hJ : ∀ c t r t', P c → J t → M.answers c t r t' → J t') (h : J t) :
    survives M calm view p (fun x t' => J t' ∧ ∀ a, x = .ok a → V a) R t := by
  induction p generalizing t with
  | done a =>
      refine ⟨h, ?_⟩
      rintro a' ha
      cases ha
      exact hr
  | raise e => exact ⟨h, fun a ha => nomatch ha⟩
  | call c next ih => exact fun r t' ha => ih r (hp.2 r) (hr r) (hJ c t r t' hp.1 h ha)
  | undo p => exact hp.elim

/-- Soundness. -/
theorem survives_storms {p : Program S E α} {Q : Except E α → τ → Prop} {x : Except E α} {s : σ}
    (h : survives M calm view p Q R t) (hrun : Storms M calm view p t x s) :
    (∃ t', view t' = s ∧ Q x t') ∨ R x s := by
  induction hrun with
  | done => exact .inl ⟨_, rfl, h⟩
  | raise => exact .inl ⟨_, rfl, h⟩
  | call ha _ ih => exact ih (h _ _ ha)
  | undo hends =>
      obtain ⟨b', hx⟩ := wp_ends h hends
      exact .inr hx

end Rules

end Elyra.Posix.Program
