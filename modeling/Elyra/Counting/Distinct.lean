import Mathlib.Data.List.Nodup
import Mathlib.Tactic

set_option autoImplicit false

/-! # Distinct keys

A counter that reads a sequence of observations, takes a key from each or none, and keeps the keys that
are new. Of two counters where one takes keys only where the other takes the same ones, the counts agree
at all times exactly if the other never takes a key that the first has not taken
(`length_distinct_eq_iff`). -/

namespace Elyra.Counting

variable {α κ : Type} [DecidableEq κ]

/-- The keys kept, with one that may be new. -/
def insertNew (kept : List κ) : Option κ → List κ
  | none => kept
  | some k => if k ∈ kept then kept else kept ++ [k]

/-- The keys kept of a sequence. -/
def distinct (ks : List (Option κ)) : List κ := ks.foldl insertNew []

theorem distinct_snoc (ks : List (Option κ)) (k : Option κ) :
    distinct (ks ++ [k]) = insertNew (distinct ks) k := by
  rw [distinct, List.foldl_append]
  rfl

theorem mem_insertNew {kept : List κ} {k : Option κ} {x : κ} :
    x ∈ insertNew kept k ↔ x ∈ kept ∨ k = some x := by
  cases k with
  | none => simp [insertNew]
  | some k =>
      rw [insertNew]
      split
      · next hk =>
          rw [Option.some_inj]
          exact ⟨.inl, fun h => h.elim id fun hx => hx ▸ hk⟩
      · simp [eq_comm]

theorem length_le_insertNew (kept : List κ) (k : Option κ) :
    kept.length ≤ (insertNew kept k).length := by
  cases k with
  | none => exact le_rfl
  | some k =>
      rw [insertNew]
      split
      · exact le_rfl
      · simp

/-- A key that is not new leaves the count, and one that is adds one to it. -/
theorem insertNew_of_length_le {kept : List κ} {k : Option κ}
    (h : (insertNew kept k).length ≤ kept.length) : insertNew kept k = kept := by
  cases k with
  | none => rfl
  | some k =>
      rw [insertNew] at h ⊢
      split at h
      · next hk => rw [if_pos hk]
      · simp at h

theorem mem_distinct {ks : List (Option κ)} {x : κ} : x ∈ distinct ks ↔ some x ∈ ks := by
  induction ks using List.reverseRecOn with
  | nil => simp [distinct]
  | append_singleton ks k ih => rw [distinct_snoc, mem_insertNew, ih, List.mem_append,
      List.mem_singleton, eq_comm (a := k)]

theorem nodup_distinct (ks : List (Option κ)) : (distinct ks).Nodup := by
  induction ks using List.reverseRecOn with
  | nil => exact List.nodup_nil
  | append_singleton ks k ih =>
      rw [distinct_snoc]
      cases k with
      | none => exact ih
      | some k =>
          rw [insertNew]
          split
          · exact ih
          · next hk =>
              refine List.nodup_append.2 ⟨ih, List.nodup_singleton k, ?_⟩
              intro x hx y hy hxy
              rw [List.mem_singleton.1 hy] at hxy
              exact hk (hxy ▸ hx)

/-- The count does not go down. -/
theorem length_distinct_le (ks ks' : List (Option κ)) :
    (distinct ks).length ≤ (distinct (ks ++ ks')).length := by
  induction ks' using List.reverseRecOn with
  | nil => rw [List.append_nil]
  | append_singleton ks' k ih =>
      rw [← List.append_assoc, distinct_snoc]
      exact ih.trans (length_le_insertNew _ _)

variable {f g : α → Option κ}

/-- What the one counter has kept the other has too. -/
theorem distinct_subset (hfg : ∀ a, g a = none ∨ g a = f a) (as : List α) :
    distinct (as.map g) ⊆ distinct (as.map f) := by
  intro x hx
  rw [mem_distinct, List.mem_map] at hx ⊢
  obtain ⟨a, ha, hga⟩ := hx
  rcases hfg a with hnone | hsame
  · rw [hnone] at hga
    cases hga
  · exact ⟨a, ha, hsame ▸ hga⟩

/-- Equal counts are equal sets. -/
theorem length_distinct_eq (hfg : ∀ a, g a = none ∨ g a = f a) {as : List α} :
    (distinct (as.map f)).length = (distinct (as.map g)).length ↔
      ∀ a ∈ as, ∀ k, f a = some k → some k ∈ as.map g := by
  have hsub : (distinct (as.map g)).Subperm (distinct (as.map f)) :=
    (nodup_distinct _).subperm (distinct_subset hfg as)
  constructor
  · intro hlength a ha k hk
    have hperm := hsub.perm_of_length_le hlength.le
    rw [← mem_distinct, hperm.mem_iff, mem_distinct]
    exact List.mem_map.2 ⟨a, ha, hk⟩
  · intro hall
    refine le_antisymm ?_ hsub.length_le
    refine ((nodup_distinct _).subperm fun x hx => ?_).length_le
    rw [mem_distinct, List.mem_map] at hx
    obtain ⟨a, ha, hka⟩ := hx
    exact mem_distinct.2 (hall a ha x hka)

/-- **Two counters agree** at all times exactly if the one that takes more has taken no key before the
    other. -/
theorem length_distinct_eq_iff (hfg : ∀ a, g a = none ∨ g a = f a) {as : List α} :
    (∀ pre a post, as = pre ++ a :: post →
        (distinct ((pre ++ [a]).map f)).length = (distinct ((pre ++ [a]).map g)).length) ↔
      ∀ pre a post, as = pre ++ a :: post → ∀ k, f a = some k → some k ∈ (pre ++ [a]).map g := by
  constructor
  · intro h pre a post has k hk
    exact (length_distinct_eq hfg).1 (h pre a post has) a (by simp) k hk
  · intro h pre a post has
    refine (length_distinct_eq hfg).2 ?_
    intro b hb k hk
    -- a key of the part read so far was written when it was read
    obtain ⟨pre', post', hsplit⟩ := List.append_of_mem hb
    have hread : as = pre' ++ b :: (post' ++ post) := by
      rw [has, List.append_cons, hsplit, List.append_assoc, List.cons_append]
    rw [hsplit, List.append_cons, List.map_append]
    exact List.mem_append_left _ (h pre' b _ hread k hk)

end Elyra.Counting
