import Mathlib.Data.List.Nodup
import Mathlib.Tactic

set_option autoImplicit false

/-! # One element for each key

A scan that keeps an element when its key is new. Each key among the elements is kept once, by the
first element that has it; every element is kept exactly if the key tells the elements apart. -/

namespace Elyra.Counting

variable {α κ : Type} [DecidableEq κ] (key : α → κ)

/-- One element of the scan. -/
def keep (kept : List α) (x : α) : List α := if key x ∈ kept.map key then kept else kept ++ [x]

/-- The elements kept. -/
def representatives (xs : List α) : List α := xs.foldl (keep key) []

/-- What holds of the elements kept, after those of `xs`. -/
structure Represents (kept xs : List α) : Prop where
  nodup : (kept.map key).Nodup
  subset : ∀ x ∈ kept, x ∈ xs
  covers : ∀ x ∈ xs, key x ∈ kept.map key

variable {key}

theorem Represents.keep {kept xs : List α} (h : Represents key kept xs) (x : α) :
    Represents key (keep key kept x) (xs ++ [x]) := by
  unfold Counting.keep
  split
  · next hx =>
      refine ⟨h.nodup, fun y hy => List.mem_append_left _ (h.subset y hy), ?_⟩
      intro y hy
      rcases List.mem_append.1 hy with hy | hy
      · exact h.covers y hy
      · exact List.mem_singleton.1 hy ▸ hx
  · next hx =>
      refine ⟨?_, ?_, ?_⟩
      · rw [List.map_append, List.map_singleton]
        exact h.nodup.append (List.nodup_singleton _) (List.disjoint_singleton.2 hx)
      · intro y hy
        rcases List.mem_append.1 hy with hy | hy
        · exact List.mem_append_left _ (h.subset y hy)
        · exact List.mem_append_right _ hy
      · intro y hy
        rw [List.map_append, List.map_singleton]
        rcases List.mem_append.1 hy with hy | hy
        · exact List.mem_append_left _ (h.covers y hy)
        · rw [List.mem_singleton.1 hy]
          exact List.mem_append_right _ (List.mem_singleton_self _)

theorem represents (xs : List α) : Represents key (representatives key xs) xs := by
  have hscan : ∀ (xs kept seen : List α), Represents key kept seen →
      Represents key (xs.foldl (keep key) kept) (seen ++ xs) := by
    intro xs
    induction xs with
    | nil => exact fun kept seen h => by simpa using h
    | cons x xs ih =>
        intro kept seen h
        have := ih _ _ (h.keep x)
        rwa [List.append_assoc, List.singleton_append] at this
  exact hscan xs [] [] ⟨List.nodup_nil, (fun _ h => nomatch h), (fun _ h => nomatch h)⟩

theorem representatives_nodup (xs : List α) : (representatives key xs).Nodup :=
  (represents xs).nodup.of_map key

theorem exists_representative {xs : List α} {x : α} (h : x ∈ xs) :
    ∃ y ∈ representatives key xs, key y = key x := List.mem_map.1 ((represents xs).covers x h)

/-- The elements kept are the first ones of their keys. -/
theorem mem_representatives_iff {xs : List α} {x : α} :
    x ∈ representatives key xs ↔
      ∃ before after, xs = before ++ x :: after ∧ ∀ y ∈ before, key y ≠ key x := by
  induction xs using List.reverseRecOn with
  | nil => simp [representatives]
  | append_singleton xs z ih =>
      have hkeys : key z ∈ (representatives key xs).map key ↔ ∃ y ∈ xs, key y = key z := by
        constructor
        · intro h
          obtain ⟨y, hy, hyz⟩ := List.mem_map.1 h
          exact ⟨y, (represents xs).subset y hy, hyz⟩
        · rintro ⟨y, hy, hyz⟩
          exact hyz ▸ (represents xs).covers y hy
      have hsnoc : representatives key (xs ++ [z]) = keep key (representatives key xs) z := by
        simp [representatives]
      -- the last element is the first of its key, or the element lies before it
      have hsplit : (∃ before after, xs ++ [z] = before ++ x :: after ∧ ∀ y ∈ before, key y ≠ key x) ↔
          (∃ before after, xs = before ++ x :: after ∧ ∀ y ∈ before, key y ≠ key x) ∨
            x = z ∧ ∀ y ∈ xs, key y ≠ key x := by
        constructor
        · rintro ⟨before, after, heq, hbefore⟩
          rcases List.eq_nil_or_concat after with rfl | ⟨after, z', rfl⟩
          · obtain ⟨rfl, hx⟩ := List.append_inj' heq rfl
            exact .inr ⟨(List.cons.inj hx).1.symm, hbefore⟩
          · rw [List.concat_eq_append, ← List.cons_append, ← List.append_assoc] at heq
            exact .inl ⟨before, after, (List.append_inj' heq rfl).1, hbefore⟩
        · rintro (⟨before, after, rfl, hbefore⟩ | ⟨rfl, hbefore⟩)
          · exact ⟨before, after ++ [z], by simp, hbefore⟩
          · exact ⟨xs, [], rfl, hbefore⟩
      rw [hsplit, ← ih, hsnoc, keep]
      split
      · next hz =>
          refine (or_iff_left ?_).symm
          rintro ⟨rfl, hbefore⟩
          obtain ⟨y, hy, hyz⟩ := hkeys.1 hz
          exact hbefore y hy hyz
      · next hz =>
          rw [List.mem_append, List.mem_singleton]
          refine or_congr_right ⟨?_, And.left⟩
          rintro rfl
          exact ⟨rfl, fun y hy hyz => hz (hkeys.2 ⟨y, hy, hyz⟩)⟩

end Elyra.Counting
