import Mathlib.Algebra.BigOperators.Group.List.Basic
import Mathlib.Logic.Relation
import Mathlib.Tactic.Abel

set_option autoImplicit false

/-! # Threads over a shared state

Any number of threads, each with a state of its own, act on one shared state. An atomic action is one
thread's, on its own state and the shared one; threads come into being at any time. What a thread
keeps whoever acts is an invariant of every run (`Pool.Runs.forall`), and a quantity that each action
moves between the shared state and the acting thread is conserved (`Pool.Runs.conserved`). -/

namespace Elyra.Posix

/-- The shared state, and the threads in the order in which they have come. -/
structure Pool (σ τ : Type) where
  shared : σ
  threads : List τ

namespace Pool

variable {σ τ : Type} {starts : τ → Prop} {act : σ → τ → σ → τ → Prop}

inductive Step (starts : τ → Prop) (act : σ → τ → σ → τ → Prop) : Pool σ τ → Pool σ τ → Prop
  | start {s ts t} : starts t → Step starts act ⟨s, ts⟩ ⟨s, ts ++ [t]⟩
  | act {s s' xs ys t t'} : act s t s' t' → Step starts act ⟨s, xs ++ t :: ys⟩ ⟨s', xs ++ t' :: ys⟩

/-- A run of atomic actions, in any interleaving. -/
abbrev Runs (starts : τ → Prop) (act : σ → τ → σ → τ → Prop) : Pool σ τ → Pool σ τ → Prop :=
  Relation.ReflTransGen (Step starts act)

variable {p p' : Pool σ τ}

/-- The other threads keep their places. -/
theorem getElem?_other {xs ys : List τ} {t t' : τ} {i : Nat} (hi : i ≠ xs.length) :
    (xs ++ t' :: ys)[i]? = (xs ++ t :: ys)[i]? := by
  rcases lt_or_gt_of_ne hi with hlt | hgt
  · rw [List.getElem?_append_left hlt, List.getElem?_append_left hlt]
  · rw [List.getElem?_append_right hgt.le, List.getElem?_append_right hgt.le]
    obtain ⟨k, hk⟩ : ∃ k, i - xs.length = k + 1 := ⟨i - xs.length - 1, by omega⟩
    rw [hk, List.getElem?_cons_succ, List.getElem?_cons_succ]

/-- A thread is one from before, or the new one. -/
theorem getElem?_started {ts : List τ} {t u : τ} {i : Nat} (h : (ts ++ [t])[i]? = some u) :
    ts[i]? = some u ∨ ts.length ≤ i ∧ u = t := by
  rcases lt_or_ge i ts.length with hi | hi
  · rw [List.getElem?_append_left hi] at h
    exact .inl h
  · rw [List.getElem?_append_right hi] at h
    refine .inr ⟨hi, ?_⟩
    cases hsub : i - ts.length with
    | zero => exact (by simpa [hsub] using h : t = u).symm
    | succ k => simp [hsub] at h

/-- An invariant of the shared state, and one of each thread with it, which may speak of the thread's
    place among the `n` threads there were at first and the later ones. A thread's own part is to be
    stable under the actions of the others. -/
theorem Runs.forall_at {I : σ → Prop} {P : Nat → σ → τ → Prop} {n : Nat}
    (hstart : ∀ i s t, n ≤ i → I s → starts t → P i s t)
    (hact : ∀ i s t s' t', act s t s' t' → I s → P i s t → I s' ∧ P i s' t')
    (hstable : ∀ i j s t s' t' u, act s t s' t' → I s → P i s t → P j s u → P j s' u)
    (h : Runs starts act p p') (hI : I p.shared) (hn : n ≤ p.threads.length)
    (hP : ∀ i t, p.threads[i]? = some t → P i p.shared t) :
    I p'.shared ∧ n ≤ p'.threads.length ∧ ∀ i t, p'.threads[i]? = some t → P i p'.shared t := by
  induction h with
  | refl => exact ⟨hI, hn, hP⟩
  | tail _ hstep ih =>
      obtain ⟨ihI, ihn, ihP⟩ := ih
      cases hstep with
      | @start s ts t hs =>
          refine ⟨ihI, ihn.trans (by simp), fun i u hu => ?_⟩
          rcases getElem?_started hu with hu | ⟨hi, rfl⟩
          · exact ihP i u hu
          · exact hstart i s _ (ihn.trans hi) ihI hs
      | @act s s' xs ys t t' ha =>
          have ht := ihP xs.length t (by simp)
          obtain ⟨hI', ht'⟩ := hact xs.length s t s' t' ha ihI ht
          refine ⟨hI', by simpa using ihn, fun i u hu => ?_⟩
          by_cases hi : i = xs.length
          · subst hi
            obtain rfl : t' = u := by simpa using hu
            exact ht'
          · refine hstable xs.length i s t s' t' u ha ihI ht (ihP i u ?_)
            rw [← hu]
            exact getElem?_other hi

/-- The same where the place does not matter. -/
theorem Runs.forall {I : σ → Prop} {P : σ → τ → Prop} (hstart : ∀ s t, I s → starts t → P s t)
    (hact : ∀ s t s' t', act s t s' t' → I s → P s t → I s' ∧ P s' t')
    (hstable : ∀ s t s' t' u, act s t s' t' → I s → P s t → P s u → P s' u)
    (h : Runs starts act p p') (hI : I p.shared) (hP : ∀ t ∈ p.threads, P p.shared t) :
    I p'.shared ∧ ∀ t ∈ p'.threads, P p'.shared t := by
  obtain ⟨hI', -, hP'⟩ := Runs.forall_at (P := fun _ => P) (fun _ s t _ => hstart s t)
    (fun _ => hact) (fun _ _ => hstable) h hI (Nat.zero_le _)
    fun i t ht => hP t (List.mem_of_getElem? ht)
  refine ⟨hI', fun t ht => ?_⟩
  obtain ⟨i, hi⟩ := List.mem_iff_getElem?.1 ht
  exact hP' i t hi

section Quantities

variable {A : Type} [AddCommMonoid A] {f : σ → A} {g : τ → A}

/-- What an action takes from the shared state goes to the thread that acts, and back. -/
theorem Runs.conserved (hstart : ∀ t, starts t → g t = 0)
    (hact : ∀ s t s' t', act s t s' t' → f s' + g t' = f s + g t) (h : Runs starts act p p') :
    f p'.shared + (p'.threads.map g).sum = f p.shared + (p.threads.map g).sum := by
  induction h with
  | refl => rfl
  | tail _ hstep ih =>
      rw [← ih]
      cases hstep with
      | start hs => simp [hstart _ hs]
      | @act s s' xs ys t t' ha =>
          have hmove := hact s t s' t' ha
          simp only [List.map_append, List.map_cons, List.sum_append, List.sum_cons]
          calc f s' + ((xs.map g).sum + (g t' + (ys.map g).sum))
              = (f s' + g t') + ((xs.map g).sum + (ys.map g).sum) := by abel
            _ = (f s + g t) + ((xs.map g).sum + (ys.map g).sum) := by rw [hmove]
            _ = f s + ((xs.map g).sum + (g t + (ys.map g).sum)) := by abel

end Quantities

/-- What an action adds to the shared state is noted by the thread that acts. -/
theorem Runs.matched {A : Type} [AddCancelCommMonoid A] {f : σ → A} {g : τ → A} (hstart : ∀ t, starts t → g t = 0)
    (hact : ∀ s t s' t', act s t s' t' → f s' + g t = f s + g t') (h : Runs starts act p p') :
    f p'.shared + (p.threads.map g).sum = f p.shared + (p'.threads.map g).sum := by
  induction h with
  | refl => rfl
  | @tail q q' _ hstep ih =>
      cases hstep with
      | start hs => simpa [hstart _ hs] using ih
      | @act s s' xs ys t t' ha =>
          have hmove := hact s t s' t' ha
          simp only [List.map_append, List.map_cons, List.sum_append, List.sum_cons] at ih ⊢
          refine add_right_cancel (b := g t) ?_
          calc f s' + (p.threads.map g).sum + g t
              = (f s' + g t) + (p.threads.map g).sum := by abel
            _ = (f s + (p.threads.map g).sum) + g t' := by rw [hmove]; abel
            _ = f p.shared + ((xs.map g).sum + (g t' + (ys.map g).sum)) + g t := by rw [ih]; abel

end Pool

end Elyra.Posix
