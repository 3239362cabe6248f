import Mathlib.Data.Finset.Card
import Mathlib.Data.Finset.Insert
import Mathlib.Tactic.Common

set_option autoImplicit false

/-! # Counting members by their state

Each of finitely many members is in some state. `census` counts those whose state has a property, and
the lemmas say what becomes of the count when one member changes its state, or joins. -/

namespace Elyra.Counting

variable {κ ρ : Type} {S : Finset κ} {state state' : κ → ρ} {P Q : ρ → Bool} {k : κ} {r : ρ}

/-- How many members are in a state with the property. -/
def census (S : Finset κ) (state : κ → ρ) (P : ρ → Bool) : Nat := (S.filter fun k => P (state k)).card

theorem census_congr (h : ∀ k ∈ S, P (state k) = Q (state' k)) :
    census S state P = census S state' Q := by
  unfold census
  rw [Finset.filter_congr fun k hk => by rw [h k hk]]

theorem census_eq_zero : census S state P = 0 ↔ ∀ k ∈ S, P (state k) = false := by
  rw [census, Finset.card_eq_zero, Finset.filter_eq_empty_iff]
  exact forall₂_congr fun k _ => Bool.eq_false_iff.symm

theorem census_pos : 0 < census S state P ↔ ∃ k ∈ S, P (state k) = true := by
  rw [census, Finset.card_pos]
  constructor
  · rintro ⟨k, hk⟩
    exact ⟨k, Finset.mem_filter.1 hk⟩
  · rintro ⟨k, hk, hp⟩
    exact ⟨k, Finset.mem_filter.2 ⟨hk, hp⟩⟩

variable [DecidableEq κ]

/-- Two properties that exclude each other. -/
theorem census_add_le {P' : ρ → Bool} (hP : ∀ r, P r = true → Q r = true)
    (hP' : ∀ r, P' r = true → Q r = true) (hnot : ∀ r, P r = true → P' r = false) :
    census S state P + census S state P' ≤ census S state Q := by
  have hdisjoint : Disjoint (S.filter fun k => P (state k)) (S.filter fun k => P' (state k)) := by
    rw [Finset.disjoint_filter]
    intro k _ hp hp'
    rw [hnot _ hp] at hp'
    cases hp'
  rw [census, census, census, ← Finset.card_union_of_disjoint hdisjoint]
  apply Finset.card_le_card
  intro k hk
  rcases Finset.mem_union.1 hk with hk | hk
  · obtain ⟨hk, hp⟩ := Finset.mem_filter.1 hk
    exact Finset.mem_filter.2 ⟨hk, hP _ hp⟩
  · obtain ⟨hk, hp⟩ := Finset.mem_filter.1 hk
    exact Finset.mem_filter.2 ⟨hk, hP' _ hp⟩

theorem census_insert (hk : k ∉ S) :
    census (insert k S) state P = census S state P + (P (state k)).toNat := by
  rw [census, Finset.filter_insert]
  cases hp : P (state k) with
  | false =>
      rw [if_neg (by decide)]
      rfl
  | true =>
      rw [if_pos rfl, Finset.card_insert_of_notMem fun h => hk (Finset.mem_filter.1 h).1]
      rfl

/-- A change of a state that does not count. -/
theorem census_update_of_notMem (hk : k ∉ S) :
    census S (Function.update state k r) P = census S state P :=
  census_congr fun k' hk' => by rw [Function.update_of_ne (ne_of_mem_of_not_mem hk' hk)]

/-- **One member changes its state**: the count loses it as it was and gains it as it is. -/
theorem census_update (state : κ → ρ) (hk : k ∈ S) :
    census S (Function.update state k r) P + (P (state k)).toNat =
      census S state P + (P r).toNat := by
  have hsplit : ∀ f : κ → ρ, census S f P = census (S.erase k) f P + (P (f k)).toNat := by
    intro f
    conv_lhs => rw [← Finset.insert_erase hk]
    exact census_insert (Finset.notMem_erase k S)
  rw [hsplit (Function.update state k r), hsplit state, Function.update_self,
    census_update_of_notMem (Finset.notMem_erase k S)]
  omega

end Elyra.Counting
