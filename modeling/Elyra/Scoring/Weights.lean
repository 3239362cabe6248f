import Mathlib.Algebra.BigOperators.Group.Finset.Basic
import Mathlib.Algebra.Order.BigOperators.Group.Finset
import Mathlib.Data.Int.Order.Basic
import Mathlib.Tactic

set_option autoImplicit false

/-! # Weights under caps

Rules are filed under categories. A set of rules scores, in each category, the sum of its weights cut
off at the cap of the category, and in total the sum over the categories. -/

namespace Elyra.Scoring

/-- Rules with their categories and weights, and the caps. -/
structure Weighing (ρ κ : Type) where
  category : ρ → κ
  weight : ρ → Int
  cap : κ → Int

namespace Weighing

variable {ρ κ : Type} [DecidableEq κ]

/-- The sum of the weights in a category. -/
def raw (W : Weighing ρ κ) (s : Finset ρ) (c : κ) : Int :=
  ∑ r ∈ s with W.category r = c, W.weight r

/-- The score of a category. -/
def capped (W : Weighing ρ κ) (s : Finset ρ) (c : κ) : Int := min (W.raw s c) (W.cap c)

def total [Fintype κ] (W : Weighing ρ κ) (s : Finset ρ) : Int := ∑ c, W.capped s c

/-- Every rule of `s` that weighs anything has a counterpart of its own in `t`, which is filed under
    the same category and weighs as much. -/
structure Covers (W : Weighing ρ κ) (s t : Finset ρ) (counterpart : ρ → ρ) : Prop where
  mem : ∀ r ∈ s, W.weight r ≠ 0 → counterpart r ∈ t
  category : ∀ r ∈ s, W.weight r ≠ 0 → W.category (counterpart r) = W.category r
  weight : ∀ r ∈ s, W.weight r ≠ 0 → W.weight r ≤ W.weight (counterpart r)
  apart : ∀ r ∈ s, ∀ r' ∈ s, W.weight r ≠ 0 → W.weight r' ≠ 0 →
    counterpart r = counterpart r' → r = r'

variable {W : Weighing ρ κ} {s t : Finset ρ} {counterpart : ρ → ρ}

omit [DecidableEq κ] in
theorem Covers.of_subset (h : s ⊆ t) : W.Covers s t id :=
  ⟨fun _ hr _ => h hr, fun _ _ _ => rfl, fun _ _ _ => le_rfl, fun _ _ _ _ _ _ heq => heq⟩

omit [DecidableEq κ] in
/-- One rule is replaced by another. -/
theorem Covers.replace [DecidableEq ρ] {a b : ρ} (hkept : ∀ r ∈ s, r ≠ a → r ∈ t) (hb : b ∈ t)
    (hnew : b ∉ s)
    (hordered : W.weight a = 0 ∨ W.category b = W.category a ∧ W.weight a ≤ W.weight b) :
    W.Covers s t (Function.update id a b) where
  mem r hr _ := by
    by_cases ha : r = a
    · rw [ha, Function.update_self]
      exact hb
    · rw [Function.update_of_ne ha]
      exact hkept r hr ha
  category r _ hweight := by
    by_cases ha : r = a
    · rw [ha, Function.update_self]
      exact (hordered.resolve_left (ha ▸ hweight)).1
    · rw [Function.update_of_ne ha]
      rfl
  weight r _ hweight := by
    by_cases ha : r = a
    · rw [ha, Function.update_self]
      exact (hordered.resolve_left (ha ▸ hweight)).2
    · rw [Function.update_of_ne ha]
      rfl
  apart r hr r' hr' _ _ heq := by
    by_cases ha : r = a <;> by_cases ha' : r' = a
    · rw [ha, ha']
    · rw [ha, Function.update_self, Function.update_of_ne ha'] at heq
      have hb' : b = r' := heq
      exact absurd hr' (hb' ▸ hnew)
    · rw [ha', Function.update_self, Function.update_of_ne ha] at heq
      have hb' : r = b := heq
      exact absurd (hb' ▸ hr) hnew
    · rwa [Function.update_of_ne ha, Function.update_of_ne ha'] at heq

theorem raw_le [DecidableEq ρ] (hnonneg : ∀ r ∈ t, 0 ≤ W.weight r)
    (h : W.Covers s t counterpart) (c : κ) : W.raw s c ≤ W.raw t c := by
  have hsub : ((s.filter fun r => W.category r = c).filter fun r => W.weight r ≠ 0).image
      counterpart ⊆ t.filter fun r => W.category r = c := by
    intro x hx
    obtain ⟨r, hr, rfl⟩ := Finset.mem_image.1 hx
    obtain ⟨hr, hweight⟩ := Finset.mem_filter.1 hr
    obtain ⟨hr, hcategory⟩ := Finset.mem_filter.1 hr
    exact Finset.mem_filter.2 ⟨h.mem r hr hweight, (h.category r hr hweight).trans hcategory⟩
  have hinj : Set.InjOn counterpart
      ((s.filter fun r => W.category r = c).filter fun r => W.weight r ≠ 0) := by
    intro r hr r' hr' heq
    rw [Finset.mem_coe, Finset.mem_filter, Finset.mem_filter] at hr hr'
    exact h.apart r hr.1.1 r' hr'.1.1 hr.2 hr'.2 heq
  calc W.raw s c
      = ∑ r ∈ (s.filter fun r => W.category r = c).filter fun r => W.weight r ≠ 0, W.weight r :=
        (Finset.sum_filter_ne_zero _).symm
    _ ≤ ∑ r ∈ (s.filter fun r => W.category r = c).filter fun r => W.weight r ≠ 0,
          W.weight (counterpart r) := by
        refine Finset.sum_le_sum fun r hr => ?_
        obtain ⟨hr, hweight⟩ := Finset.mem_filter.1 hr
        exact h.weight r (Finset.mem_filter.1 hr).1 hweight
    _ = ∑ x ∈ ((s.filter fun r => W.category r = c).filter fun r => W.weight r ≠ 0).image
          counterpart, W.weight x := (Finset.sum_image hinj).symm
    _ ≤ W.raw t c :=
        Finset.sum_le_sum_of_subset_of_nonneg hsub fun r hr _ =>
          hnonneg r (Finset.mem_filter.1 hr).1

theorem capped_le [DecidableEq ρ] (hnonneg : ∀ r ∈ t, 0 ≤ W.weight r)
    (h : W.Covers s t counterpart) (c : κ) : W.capped s c ≤ W.capped t c :=
  min_le_min_right _ (raw_le hnonneg h c)

theorem total_le [DecidableEq ρ] [Fintype κ] (hnonneg : ∀ r ∈ t, 0 ≤ W.weight r)
    (h : W.Covers s t counterpart) : W.total s ≤ W.total t :=
  Finset.sum_le_sum fun c _ => capped_le hnonneg h c

/-- A bound within the cap is reached by the score of a category exactly if the weights reach it. -/
theorem le_capped_iff {bound : Int} {c : κ} (hbound : bound ≤ W.cap c) :
    bound ≤ W.capped s c ↔ bound ≤ W.raw s c :=
  ⟨fun h => h.trans (min_le_left _ _), fun h => le_min h hbound⟩

/-- Adding the weights of a list of different rules. -/
theorem raw_toFinset [DecidableEq ρ] {rules : List ρ} (hrules : rules.Nodup) (c : κ) :
    W.raw rules.toFinset c = (rules.map fun r => if W.category r = c then W.weight r else 0).sum := by
  rw [raw, Finset.sum_filter, List.sum_toFinset _ hrules]

end Weighing

end Elyra.Scoring
