import Mathlib.Order.CompletePartialOrder
import Mathlib.Order.Interval.Set.Disjoint
import Mathlib.Data.List.Chain

set_option autoImplicit false

/-! # Ranges

Half-open ranges of an ordered type that are not empty. Of ranges in the order of their lower ends, any
two are disjoint exactly if each has ended where the next one begins (`isChain_precedes_iff`). -/

namespace Elyra.Ranges

/-- `lower`, and what follows it up to `upper` exclusively. -/
structure Range (α : Type) [LinearOrder α] where
  lower : α
  upper : α
  nonempty : lower < upper
  deriving DecidableEq

namespace Range

variable {α : Type} [LinearOrder α] {r s t : Range α}

/-- The elements of the range. -/
def set (r : Range α) : Set α := Set.Ico r.lower r.upper

/-- `r` has ended where `s` begins. -/
def Precedes (r s : Range α) : Prop := r.upper ≤ s.lower

theorem Precedes.trans (hr : r.Precedes s) (hs : s.Precedes t) : r.Precedes t :=
  le_trans (b := s.lower) hr (le_trans s.nonempty.le hs)

instance : IsTrans (Range α) Precedes := ⟨fun _ _ _ => Precedes.trans⟩

theorem disjoint_iff : Disjoint r.set s.set ↔ r.Precedes s ∨ s.Precedes r := by
  have hr := not_le.2 r.nonempty
  have hs := not_le.2 s.nonempty
  rw [set, set, Set.Ico_disjoint_Ico, min_le_iff, le_max_iff, le_max_iff]
  unfold Precedes
  tauto

theorem precedes_iff_of_le (h : r.lower ≤ s.lower) : r.Precedes s ↔ Disjoint r.set s.set := by
  rw [disjoint_iff, or_iff_left]
  intro hsr
  exact absurd (s.nonempty.trans_le (le_trans hsr h)) (lt_irrefl _)

/-- In the order of the lower ends, neighbours tell everything. -/
theorem isChain_precedes_iff {l : List (Range α)} (hsorted : l.Pairwise fun r s => r.lower ≤ s.lower) :
    l.IsChain Precedes ↔ l.Pairwise fun r s => Disjoint r.set s.set := by
  rw [List.isChain_iff_pairwise]
  constructor
  · intro h
    exact h.imp fun hrs => disjoint_iff.2 (.inl hrs)
  · intro h
    exact (hsorted.and h).imp fun ⟨hle, hd⟩ => (precedes_iff_of_le hle).2 hd

end Range

end Elyra.Ranges
