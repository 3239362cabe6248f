import Mathlib.Data.Finset.Card
import Mathlib.Data.Finset.Dedup

set_option autoImplicit false

/-! # Counting distinct keys up to a cap

A tally sees pairs of a class and a key. A key that is new to its class is remembered, and counted
as long as the class is below its cap. The keys come one at a time, with repeats, and a full class
goes on remembering; what is left depends on the set of pairs alone. -/

namespace Elyra.Counting

variable {ι κ : Type} [DecidableEq ι] [DecidableEq κ]

/-- The count and the remembered keys of each class. -/
@[ext]
structure Tally (ι κ : Type) where
  count : ι → Nat
  keys : ι → Finset κ

/-- One pair. -/
def Tally.add (cap : ι → Nat) (t : Tally ι κ) (x : ι × κ) : Tally ι κ :=
  if x.2 ∈ t.keys x.1 then t
  else
    { count := if cap x.1 ≤ t.count x.1 then t.count
        else Function.update t.count x.1 (t.count x.1 + 1)
      keys := Function.update t.keys x.1 (insert x.2 (t.keys x.1)) }

/-- The pairs one after the other. -/
def Tally.addAll (cap : ι → Nat) (t : Tally ι κ) (xs : List (ι × κ)) : Tally ι κ :=
  xs.foldl (Tally.add cap) t

@[simp] theorem Tally.addAll_nil (cap : ι → Nat) (t : Tally ι κ) : t.addAll cap [] = t := rfl

theorem Tally.addAll_append (cap : ι → Nat) (t : Tally ι κ) (xs ys : List (ι × κ)) :
    t.addAll cap (xs ++ ys) = (t.addAll cap xs).addAll cap ys := List.foldl_append

theorem Tally.addAll_singleton (cap : ι → Nat) (t : Tally ι κ) (x : ι × κ) :
    t.addAll cap [x] = t.add cap x := rfl

/-- The keys of one class among the pairs. -/
def keysOf (xs : List (ι × κ)) (i : ι) : Finset κ := ((xs.filter (·.1 = i)).map (·.2)).toFinset

theorem mem_keysOf {xs : List (ι × κ)} {i : ι} {k : κ} : k ∈ keysOf xs i ↔ (i, k) ∈ xs := by
  simp [keysOf]

theorem keysOf_append (xs ys : List (ι × κ)) (i : ι) :
    keysOf (xs ++ ys) i = keysOf xs i ∪ keysOf ys i := by
  ext k
  simp only [mem_keysOf, List.mem_append, Finset.mem_union]

theorem keysOf_perm {xs ys : List (ι × κ)} (h : xs.Perm ys) (i : ι) :
    keysOf xs i = keysOf ys i := by
  ext k
  rw [mem_keysOf, mem_keysOf, h.mem_iff]

theorem keysOf_singleton_self (i : ι) (k : κ) : keysOf [(i, k)] i = {k} := by
  ext k'
  simp [mem_keysOf]

theorem keysOf_singleton_ne {i j : ι} (h : j ≠ i) (k : κ) : keysOf [(i, k)] j = ∅ := by
  ext k'
  simp [mem_keysOf, h]

theorem keysOf_map_self (i : ι) (ks : List κ) : keysOf (ks.map (Prod.mk i)) i = ks.toFinset := by
  ext k
  simp [mem_keysOf]

theorem keysOf_map_ne {i j : ι} (h : j ≠ i) (ks : List κ) : keysOf (ks.map (Prod.mk i)) j = ∅ := by
  ext k
  simp [mem_keysOf, Ne.symm h]

theorem Tally.keys_add (cap : ι → Nat) (t : Tally ι κ) (x : ι × κ) (i : ι) :
    (t.add cap x).keys i = t.keys i ∪ keysOf [x] i := by
  obtain ⟨j, k⟩ := x
  unfold Tally.add
  by_cases hi : i = j
  · subst hi
    rw [keysOf_singleton_self]
    split
    · next hk => exact (Finset.union_eq_left.2 (Finset.singleton_subset_iff.2 hk)).symm
    · dsimp only
      rw [Function.update_self, Finset.insert_eq, Finset.union_comm]
  · rw [keysOf_singleton_ne hi, Finset.union_empty]
    split
    · rfl
    · exact Function.update_of_ne hi ..

/-- What is remembered: the keys there were, and those that came. -/
theorem Tally.keys_addAll (cap : ι → Nat) (t : Tally ι κ) (xs : List (ι × κ)) (i : ι) :
    (t.addAll cap xs).keys i = t.keys i ∪ keysOf xs i := by
  induction xs using List.reverseRecOn with
  | nil => exact (Finset.union_empty _).symm
  | append_singleton xs x ih =>
      rw [Tally.addAll_append, Tally.addAll_singleton, Tally.keys_add, ih, keysOf_append,
        Finset.union_assoc]

/-- What is counted: the new keys, as far as the cap allows. -/
theorem Tally.count_addAll (cap : ι → Nat) (t : Tally ι κ) (xs : List (ι × κ)) (i : ι) :
    (t.addAll cap xs).count i =
      max (t.count i) (min (cap i) (t.count i + (keysOf xs i \ t.keys i).card)) := by
  induction xs using List.reverseRecOn with
  | nil =>
      have hempty : keysOf ([] : List (ι × κ)) i \ t.keys i = ∅ :=
        Finset.empty_sdiff _
      rw [hempty, Tally.addAll_nil, Finset.card_empty]
      omega
  | append_singleton xs x ih =>
      obtain ⟨j, k⟩ := x
      have hkeys := Tally.keys_addAll cap t xs j
      rw [Tally.addAll_append, Tally.addAll_singleton, keysOf_append]
      unfold Tally.add
      by_cases hi : i = j
      · subst hi
        rw [keysOf_singleton_self]
        split
        · next hk =>
          -- the key came before, or was there at the start
          have hsame : (keysOf xs i ∪ {k}) \ t.keys i = keysOf xs i \ t.keys i := by
            rw [hkeys, Finset.mem_union] at hk
            ext k'
            simp only [Finset.mem_sdiff, Finset.mem_union, Finset.mem_singleton]
            constructor
            · rintro ⟨h | rfl, hnot⟩
              · exact ⟨h, hnot⟩
              · exact ⟨hk.resolve_left hnot, hnot⟩
            · rintro ⟨h, hnot⟩
              exact ⟨.inl h, hnot⟩
          rw [hsame, ih]
        · next hk =>
          -- one more new key
          rw [hkeys, Finset.mem_union, not_or] at hk
          have hnew : (keysOf xs i ∪ {k}) \ t.keys i = insert k (keysOf xs i \ t.keys i) := by
            ext k'
            simp only [Finset.mem_sdiff, Finset.mem_union, Finset.mem_singleton, Finset.mem_insert]
            constructor
            · rintro ⟨h | rfl, hnot⟩
              · exact .inr ⟨h, hnot⟩
              · exact .inl rfl
            · rintro (rfl | ⟨h, hnot⟩)
              · exact ⟨.inr rfl, hk.1⟩
              · exact ⟨.inl h, hnot⟩
          have hcard : (insert k (keysOf xs i \ t.keys i)).card =
              (keysOf xs i \ t.keys i).card + 1 :=
            Finset.card_insert_of_notMem fun h => hk.2 (Finset.mem_sdiff.1 h).1
          rw [hnew, hcard]
          dsimp only
          split
          · next hcap =>
            rw [ih] at hcap ⊢
            omega
          · next hcap =>
            rw [Function.update_self]
            rw [ih] at hcap ⊢
            omega
      · rw [keysOf_singleton_ne hi, Finset.union_empty, ← ih]
        split
        · rfl
        · dsimp only
          split
          · rfl
          · exact Function.update_of_ne hi ..

/-- The order of the pairs does not matter. -/
theorem Tally.addAll_perm (cap : ι → Nat) (t : Tally ι κ) {xs ys : List (ι × κ)}
    (h : xs.Perm ys) : t.addAll cap xs = t.addAll cap ys := by
  ext i : 2
  · rw [Tally.count_addAll, Tally.count_addAll, keysOf_perm h]
  · rw [Tally.keys_addAll, Tally.keys_addAll, keysOf_perm h]

/-- From an empty tally, a class counts its distinct keys up to its cap. -/
theorem Tally.count_addAll_of_empty (cap : ι → Nat) {t : Tally ι κ} {i : ι} (hcount : t.count i = 0)
    (hkeys : t.keys i = ∅) (xs : List (ι × κ)) :
    (t.addAll cap xs).count i = min (cap i) (keysOf xs i).card := by
  rw [Tally.count_addAll, hcount, hkeys, Finset.sdiff_empty]
  omega

end Elyra.Counting
