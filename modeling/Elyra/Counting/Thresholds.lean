import Mathlib.Data.Finset.Max
import Mathlib.Data.List.MinMax
import Mathlib.Tactic
import Mathlib.Data.Prod.Lex

set_option autoImplicit false

/-! # Counting what reaches a threshold

How many elements of a list lie at or above a threshold. The count falls as the threshold rises, and
only at elements of the list: any threshold can be raised to the next element without a change.

Where such a count is to be kept high and the thresholds are elements of a list, preferring the higher
count and then the lower threshold comes to the lowest threshold there is (`argmax_isLeast`). -/

namespace Elyra.Counting

variable {α : Type} [LinearOrder α]

/-- The elements at or above `t`. -/
def atLeast (xs : List α) (t : α) : Nat := xs.countP fun x => decide (t ≤ x)

theorem atLeast_antitone (xs : List α) : Antitone (atLeast xs) := by
  intro s t hst
  refine List.countP_mono_left ?_
  intro x _ hx
  exact decide_eq_true (hst.trans (of_decide_eq_true hx))

/-- Raising a threshold loses nothing exactly when no element lies in between. -/
theorem atLeast_eq_iff {xs : List α} {s t : α} (hst : s ≤ t) :
    atLeast xs s = atLeast xs t ↔ ∀ x ∈ xs, s ≤ x → t ≤ x := by
  induction xs with
  | nil => simp [atLeast]
  | cons x xs ih =>
      have hle : atLeast xs t ≤ atLeast xs s := atLeast_antitone xs hst
      simp only [atLeast] at ih hle ⊢
      rw [List.forall_mem_cons, ← ih, List.countP_cons, List.countP_cons]
      by_cases hs : s ≤ x
      · by_cases ht : t ≤ x
        · simp [hs, ht]
        · simp only [hs, ht, decide_true, decide_false, if_true, Bool.false_eq_true, if_false,
            forall_const, false_and, iff_false]
          omega
      · have ht : ¬ t ≤ x := fun ht => hs (hst.trans ht)
        simp [hs, ht]

theorem atLeast_lt_iff {xs : List α} {s t : α} (hst : s ≤ t) :
    atLeast xs t < atLeast xs s ↔ ∃ x ∈ xs, s ≤ x ∧ x < t := by
  have hne : atLeast xs t < atLeast xs s ↔ ¬ atLeast xs s = atLeast xs t := by
    have := atLeast_antitone xs hst
    omega
  rw [hne, atLeast_eq_iff hst]
  push Not
  exact Iff.rfl

/-- The next element at or above a threshold. -/
theorem exists_next {xs : List α} {t : α} (h : ∃ x ∈ xs, t ≤ x) :
    ∃ s ∈ xs, t ≤ s ∧ ∀ x ∈ xs, t ≤ x → s ≤ x := by
  have hne : (xs.toFinset.filter (t ≤ ·)).Nonempty := by
    obtain ⟨x, hx, htx⟩ := h
    exact ⟨x, Finset.mem_filter.2 ⟨List.mem_toFinset.2 hx, htx⟩⟩
  have hmin := Finset.min'_mem _ hne
  rw [Finset.mem_filter, List.mem_toFinset] at hmin
  refine ⟨_, hmin.1, hmin.2, ?_⟩
  intro x hx htx
  exact Finset.min'_le _ _ (Finset.mem_filter.2 ⟨List.mem_toFinset.2 hx, htx⟩)

section Choice

variable {β γ ω : Type} [LinearOrder β] [LinearOrder ω]

/-- The best element by a gain that falls with the threshold, ties going to the lowest threshold, has
    the lowest threshold of all. `f` reverses the order of the thresholds. -/
theorem argmax_isLeast {cs : List γ} {gain : γ → β} {threshold : γ → α} {f : α → ω} {c : γ}
    (hf : StrictAnti f)
    (hgain : ∀ a ∈ cs, ∀ b ∈ cs, threshold a ≤ threshold b → gain b ≤ gain a)
    (h : c ∈ cs.argmax fun x => toLex (gain x, f (threshold x))) :
    ∀ a ∈ cs, threshold c ≤ threshold a := by
  intro a ha
  by_contra hlt
  rw [not_le] at hlt
  have hle := List.le_of_mem_argmax ha h
  rw [Prod.Lex.toLex_le_toLex] at hle
  rcases hle with hle | ⟨-, hle⟩
  · exact absurd (hgain a ha c (List.argmax_mem h) hlt.le) (not_le.2 hle)
  · exact absurd (hf hlt) (not_lt.2 hle)

end Choice

end Elyra.Counting
