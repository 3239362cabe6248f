import Mathlib.Data.List.Lex
import Mathlib.Data.List.Sort
import Mathlib.Order.Compare
import Elyra.Python.Builtins

set_option autoImplicit false

/-! # Comparing and sorting values

`a < b` on decoded JSON values, which raises `TypeError` unless both are numbers, both texts or both
lists. Numbers compare by value, whatever their type, and lists by the first items that differ, so
comparing lists needs equality of everything that can be in them. Both are defined on a form in which
equal values are the same (`exactForm`).

`sorted` compares no value with all others, but two values that stand next to each other in its result
have been compared: it raises `TypeError` exactly if some pair has no order (`sortedNewest`). -/

namespace Elyra.Python

/-! ## The order -/

/-- How two elements of a linear order stand to each other. -/
def order {α : Type} [LinearOrder α] (a b : α) : Ordering := cmp a b

theorem order_swap {α : Type} [LinearOrder α] (a b : α) : order b a = (order a b).swap :=
  (cmp_swap a b).symm

@[simp] theorem order_eq {α : Type} [LinearOrder α] (a b : α) : order a b = .eq ↔ a = b :=
  cmp_eq_eq_iff a b

@[simp] theorem order_lt {α : Type} [LinearOrder α] (a b : α) : order a b = .lt ↔ a < b :=
  cmp_eq_lt_iff a b

section Compare

variable {K : Type} [LinearOrder K]

mutual

/-- How two values stand to each other; `none` where neither is equal to, below or above the other. -/
def compareJson : Json K → Json K → Option Ordering
  | .null, .null => some .eq
  | .bool b, .bool c => if b = c then some .eq else none
  | .int m, .int n => if m = n then some .eq else none
  | .float p, .float q => some (order p q)
  | .str s, .str t => some (order s t)
  | .arr xs, .arr ys => compareItems xs ys
  | .obj kvs, .obj kvs' => compareMembers kvs kvs'
  | _, _ => none

/-- Lists by their first items that differ. -/
def compareItems : List (Json K) → List (Json K) → Option Ordering
  | [], [] => some .eq
  | [], _ :: _ => some .lt
  | _ :: _, [] => some .gt
  | x :: xs, y :: ys =>
      match compareJson x y with
      | some .eq => compareItems xs ys
      | o => o

/-- Dictionaries are equal or not. -/
def compareMembers : List (PyStr × Json K) → List (PyStr × Json K) → Option Ordering
  | [], [] => some .eq
  | (k, v) :: kvs, (k', v') :: kvs' =>
      if k = k' ∧ compareJson v v' = some .eq then compareMembers kvs kvs' else none
  | _, _ => none

end

attribute [grind =] compareJson compareItems compareMembers

theorem compareItems_eq_iff {xs : List (Json K)}
    (h : ∀ x ∈ xs, ∀ y, compareJson x y = some .eq ↔ x = y) (ys : List (Json K)) :
    compareItems xs ys = some .eq ↔ xs = ys := by
  induction xs generalizing ys with
  | nil => cases ys <;> simp [compareItems]
  | cons x xs ih =>
      cases ys with
      | nil => simp [compareItems]
      | cons y ys =>
          have hx := h x (List.mem_cons_self ..) y
          have hxs := ih (fun z hz => h z (List.mem_cons_of_mem _ hz)) ys
          rw [compareItems, List.cons.injEq, ← hx, ← hxs]
          split
          · next heq => simp [heq]
          · next hne => exact iff_of_false hne fun h => hne h.1

theorem compareMembers_eq_iff {kvs : List (PyStr × Json K)}
    (h : ∀ kv ∈ kvs, ∀ y, compareJson kv.2 y = some .eq ↔ kv.2 = y) (kvs' : List (PyStr × Json K)) :
    compareMembers kvs kvs' = some .eq ↔ kvs = kvs' := by
  induction kvs generalizing kvs' with
  | nil => cases kvs' <;> simp [compareMembers]
  | cons kv kvs ih =>
      obtain ⟨k, v⟩ := kv
      cases kvs' with
      | nil => simp [compareMembers]
      | cons kv' kvs' =>
          obtain ⟨k', v'⟩ := kv'
          have hv := h (k, v) (List.mem_cons_self ..) v'
          have hkvs := ih (fun z hz => h z (List.mem_cons_of_mem _ hz)) kvs'
          rw [compareMembers, List.cons.injEq, Prod.mk.injEq, ← hv, ← hkvs]
          split
          · next heq => simp [heq]
          · next hne => simp [hne]

/-- Equal values are the same. -/
theorem compareJson_eq_iff (v w : Json K) : compareJson v w = some .eq ↔ v = w := by
  induction v using Json.inductOn generalizing w with
  | null => cases w <;> simp [compareJson]
  | bool b => cases w <;> simp [compareJson]
  | int n => cases w <;> simp [compareJson]
  | float p => cases w <;> simp [compareJson]
  | str s => cases w <;> simp [compareJson]
  | arr xs ih =>
      cases w with
      | arr ys => simpa [compareJson] using compareItems_eq_iff ih ys
      | _ => simp [compareJson]
  | obj kvs ih =>
      cases w with
      | obj kvs' => simpa [compareJson] using compareMembers_eq_iff ih kvs'
      | _ => simp [compareJson]

theorem compareItems_swap {xs : List (Json K)}
    (h : ∀ x ∈ xs, ∀ y, compareJson y x = (compareJson x y).map Ordering.swap) (ys : List (Json K)) :
    compareItems ys xs = (compareItems xs ys).map Ordering.swap := by
  induction xs generalizing ys with
  | nil => cases ys <;> rfl
  | cons x xs ih =>
      cases ys with
      | nil => rfl
      | cons y ys =>
          have hx := h x (List.mem_cons_self ..) y
          have hxs := ih (fun z hz => h z (List.mem_cons_of_mem _ hz)) ys
          rw [compareItems, compareItems, hx]
          cases hxy : compareJson x y with
          | none => rfl
          | some o =>
              cases o with
              | eq => exact hxs
              | lt => rfl
              | gt => rfl

theorem compareMembers_swap {kvs : List (PyStr × Json K)}
    (h : ∀ kv ∈ kvs, ∀ y, compareJson y kv.2 = (compareJson kv.2 y).map Ordering.swap)
    (kvs' : List (PyStr × Json K)) :
    compareMembers kvs' kvs = (compareMembers kvs kvs').map Ordering.swap := by
  induction kvs generalizing kvs' with
  | nil => cases kvs' <;> rfl
  | cons kv kvs ih =>
      obtain ⟨k, v⟩ := kv
      cases kvs' with
      | nil => rfl
      | cons kv' kvs' =>
          obtain ⟨k', v'⟩ := kv'
          have hkvs := ih (fun z hz => h z (List.mem_cons_of_mem _ hz)) kvs'
          have hv : compareJson v' v = some .eq ↔ compareJson v v' = some .eq := by
            rw [compareJson_eq_iff, compareJson_eq_iff, eq_comm]
          rw [compareMembers, compareMembers]
          by_cases heq : k = k' ∧ compareJson v v' = some .eq
          · rw [if_pos heq, if_pos ⟨heq.1.symm, hv.2 heq.2⟩, hkvs]
          · rw [if_neg heq, if_neg fun h' => heq ⟨h'.1.symm, hv.1 h'.2⟩]
            rfl

theorem compareJson_swap (v w : Json K) : compareJson w v = (compareJson v w).map Ordering.swap := by
  induction v using Json.inductOn generalizing w with
  | null => cases w <;> rfl
  | bool b =>
      cases w with
      | bool c =>
          simp only [compareJson, eq_comm (a := c)]
          split <;> rfl
      | _ => rfl
  | int n =>
      cases w with
      | int m =>
          simp only [compareJson, eq_comm (a := m)]
          split <;> rfl
      | _ => rfl
  | float p =>
      cases w with
      | float q => exact congrArg some (order_swap p q)
      | _ => rfl
  | str s =>
      cases w with
      | str t => exact congrArg some (order_swap s t)
      | _ => rfl
  | arr xs ih =>
      cases w with
      | arr ys => exact compareItems_swap ih ys
      | _ => rfl
  | obj kvs ih =>
      cases w with
      | obj kvs' => exact compareMembers_swap ih kvs'
      | _ => rfl

theorem compareItems_lt_iff {x y : Json K} {xs ys : List (Json K)} :
    compareItems (x :: xs) (y :: ys) = some .lt ↔
      compareJson x y = some .lt ∨ x = y ∧ compareItems xs ys = some .lt := by
  rw [compareItems, ← compareJson_eq_iff]
  split
  · next heq => simp [heq]
  · next hne => exact (or_iff_left fun h => hne h.1).symm

theorem compareItems_trans {xs : List (Json K)}
    (h : ∀ x ∈ xs, ∀ y z, compareJson x y = some .lt → compareJson y z = some .lt →
      compareJson x z = some .lt)
    {ys zs : List (Json K)} (hxy : compareItems xs ys = some .lt)
    (hyz : compareItems ys zs = some .lt) : compareItems xs zs = some .lt := by
  induction xs generalizing ys zs with
  | nil =>
      cases zs with
      | nil => cases ys <;> exact absurd hyz (by simp [compareItems])
      | cons z zs => rfl
  | cons x xs ih =>
      cases ys with
      | nil => exact absurd hxy (by simp [compareItems])
      | cons y ys =>
          cases zs with
          | nil => exact absurd hyz (by simp [compareItems])
          | cons z zs =>
              rw [compareItems_lt_iff] at hxy hyz ⊢
              rcases hxy with hxy | ⟨rfl, hxy⟩
              · rcases hyz with hyz | ⟨rfl, -⟩
                · exact .inl (h x (List.mem_cons_self ..) y z hxy hyz)
                · exact .inl hxy
              · rcases hyz with hyz | ⟨rfl, hyz⟩
                · exact .inl hyz
                · exact .inr ⟨rfl, ih (fun w hw => h w (List.mem_cons_of_mem _ hw)) hxy hyz⟩

theorem compareMembers_ne_lt (kvs kvs' : List (PyStr × Json K)) :
    compareMembers kvs kvs' ≠ some .lt := by
  induction kvs generalizing kvs' with
  | nil => cases kvs' <;> simp [compareMembers]
  | cons kv kvs ih =>
      cases kvs' with
      | nil => simp [compareMembers]
      | cons kv' kvs' =>
          rw [compareMembers]
          split
          · exact ih kvs'
          · simp

/-- Below is transitive. -/
theorem compareJson_trans {u v w : Json K} (huv : compareJson u v = some .lt)
    (hvw : compareJson v w = some .lt) : compareJson u w = some .lt := by
  induction u using Json.inductOn generalizing v w with
  | null => cases v <;> simp [compareJson] at huv
  | bool b => cases v <;> simp [compareJson] at huv
  | int n => cases v <;> simp [compareJson] at huv
  | float p =>
      cases v <;> simp only [compareJson, Option.some.injEq, reduceCtorEq] at huv
      cases w <;> simp only [compareJson, Option.some.injEq, reduceCtorEq] at hvw ⊢
      exact (order_lt _ _).2 (((order_lt _ _).1 huv).trans ((order_lt _ _).1 hvw))
  | str s =>
      cases v <;> simp only [compareJson, Option.some.injEq, reduceCtorEq] at huv
      cases w <;> simp only [compareJson, Option.some.injEq, reduceCtorEq] at hvw ⊢
      exact (order_lt _ _).2 (((order_lt _ _).1 huv).trans ((order_lt _ _).1 hvw))
  | arr xs ih =>
      cases v <;> simp only [compareJson, reduceCtorEq] at huv
      cases w <;> simp only [compareJson, reduceCtorEq] at hvw ⊢
      exact compareItems_trans (fun x hx y z => ih x hx) huv hvw
  | obj kvs ih =>
      cases v <;> simp only [compareJson, reduceCtorEq] at huv
      exact absurd huv (compareMembers_ne_lt _ _)

end Compare

/-! ## Numbers by value -/

/-- A float has an exact value. -/
class ExactFloat (F : Type) extends FloatNum F where
  /-- The value of a finite float. -/
  exact : F → ℚ

instance : ExactFloat SampleFloat where
  exact _ := 0

variable {F : Type} [ExactFloat F]

mutual

/-- Every number by its value. -/
def Json.byValue : Json F → Json ℚ
  | .null => .null
  | .bool b => .float (if b then 1 else 0)
  | .int n => .float n
  | .float f => .float (ExactFloat.exact f)
  | .str s => .str s
  | .arr xs => .arr (itemsByValue xs)
  | .obj kvs => .obj (membersByValue kvs)

def itemsByValue : List (Json F) → List (Json ℚ)
  | [] => []
  | x :: xs => x.byValue :: itemsByValue xs

def membersByValue : List (PyStr × Json F) → List (PyStr × Json ℚ)
  | [] => []
  | (k, v) :: kvs => (k, v.byValue) :: membersByValue kvs

end

/-- Values without non-finite floats are equal in Python if they have the same form. -/
def exactForm (v : Json F) : Json ℚ := v.byValue.sortKeys

def Json.hasOrder : Json ℚ → Bool
  | .float _ => true
  | .str _ => true
  | .arr _ => true
  | _ => false

/-- `v < w`, for values without non-finite floats; `none` is the `TypeError`. -/
def pyLt (v w : Json F) : Option Bool :=
  if (exactForm v).hasOrder then
    (compareJson (exactForm v) (exactForm w)).map (· == .lt)
  else none

theorem hasOrder_congr {v w : Json ℚ} (h : compareJson v w ≠ none) : v.hasOrder = w.hasOrder := by
  cases v <;> cases w <;> first | rfl | exact absurd rfl h

theorem pyLt_eq_true {v w : Json F} :
    pyLt v w = some true ↔ compareJson (exactForm v) (exactForm w) = some .lt := by
  unfold pyLt
  split
  · simp
  · next hno =>
    refine iff_of_false (by simp) fun hlt => hno ?_
    revert hlt
    cases exactForm v <;> cases exactForm w <;> simp [compareJson, Json.hasOrder, compareMembers_ne_lt]

/-- Whether there is an order does not depend on the side. -/
theorem pyLt_isSome_comm (v w : Json F) : (pyLt v w).isSome = (pyLt w v).isSome := by
  unfold pyLt
  rw [compareJson_swap (exactForm v) (exactForm w)]
  cases hcmp : compareJson (exactForm v) (exactForm w) with
  | none => simp
  | some o =>
      have hcongr := hasOrder_congr (v := exactForm v) (w := exactForm w) (by simp [hcmp])
      rw [hcongr]
      split <;> simp

/-! ## Sorting -/

section Sorting

variable {α : Type} {r : α → α → Prop} [DecidableRel r]

/-- Inserting into a sorted list, with `r` an order among the elements concerned. -/
theorem pairwise_orderedInsert {a : α} {l : List α}
    (htotal : ∀ b ∈ l, r a b ∨ r b a) (htrans : ∀ b ∈ l, ∀ c ∈ l, r a b → r b c → r a c)
    (h : l.Pairwise r) : (l.orderedInsert r a).Pairwise r := by
  induction l with
  | nil => exact List.pairwise_singleton r a
  | cons b l ih =>
      obtain ⟨hb, hl⟩ := List.pairwise_cons.1 h
      by_cases hab : r a b
      · rw [List.orderedInsert_cons_of_le r l hab]
        refine List.pairwise_cons.2 ⟨fun c hc => ?_, h⟩
        rcases List.mem_cons.1 hc with rfl | hc
        · exact hab
        · exact htrans b (List.mem_cons_self ..) c (List.mem_cons_of_mem _ hc) hab (hb c hc)
      · rw [List.orderedInsert_of_not_le r l hab]
        refine List.pairwise_cons.2 ⟨fun c hc => ?_, ?_⟩
        · rcases (List.mem_orderedInsert r).1 hc with rfl | hc
          · exact (htotal b (List.mem_cons_self ..)).resolve_left hab
          · exact hb c hc
        · exact ih (fun c hc => htotal c (List.mem_cons_of_mem _ hc))
            (fun c hc d hd => htrans c (List.mem_cons_of_mem _ hc) d (List.mem_cons_of_mem _ hd)) hl

theorem pairwise_insertionSort {l : List α} (htotal : ∀ a ∈ l, ∀ b ∈ l, r a b ∨ r b a)
    (htrans : ∀ a ∈ l, ∀ b ∈ l, ∀ c ∈ l, r a b → r b c → r a c) :
    (l.insertionSort r).Pairwise r := by
  induction l with
  | nil => exact List.Pairwise.nil
  | cons a l ih =>
      have hmem : ∀ b ∈ l.insertionSort r, b ∈ a :: l := fun b hb =>
        List.mem_cons_of_mem _ ((List.perm_insertionSort r l).mem_iff.1 hb)
      have ha := List.mem_cons_self (a := a) (l := l)
      refine pairwise_orderedInsert (fun b hb => htotal a ha b (hmem b hb))
        (fun b hb c hc => htrans a ha b (hmem b hb) c (hmem c hc)) (ih ?_ ?_)
      · exact fun b hb c hc => htotal b (List.mem_cons_of_mem _ hb) c (List.mem_cons_of_mem _ hc)
      · exact fun b hb c hc d hd => htrans b (List.mem_cons_of_mem _ hb) c
          (List.mem_cons_of_mem _ hc) d (List.mem_cons_of_mem _ hd)

end Sorting

section Newest

variable {α : Type} (key : α → Json F)

/-- Two elements whose keys have an order. -/
def Comparable (a b : α) : Prop := (pyLt (key a) (key b)).isSome = true

instance : DecidableRel (Comparable key) := fun a b =>
  inferInstanceAs (Decidable ((pyLt (key a) (key b)).isSome = true))

/-- `a` is no older than `b`. -/
def NoOlder (a b : α) : Prop := pyLt (key a) (key b) ≠ some true

instance : DecidableRel (NoOlder key) := fun a b =>
  inferInstanceAs (Decidable (pyLt (key a) (key b) ≠ some true))

/-- `sorted(items, key=key, reverse=True)`, which keeps the order of equal keys; `none` is the
    `TypeError`. -/
def sortedNewest (items : List α) : Option (List α) :=
  if items.Pairwise (Comparable key) then some (items.insertionSort (NoOlder key)) else none

variable {key}

theorem noOlder_total (a b : α) : NoOlder key a b ∨ NoOlder key b a := by
  by_cases hab : NoOlder key a b
  · exact .inl hab
  · refine .inr fun hba => ?_
    have hlt := pyLt_eq_true.1 (not_not.1 hab)
    rw [pyLt_eq_true, compareJson_swap (exactForm (key a)) (exactForm (key b)), hlt] at hba
    exact absurd hba (by simp)

theorem Comparable.symm {a b : α} (h : Comparable key a b) : Comparable key b a := by
  unfold Comparable at h ⊢
  rwa [pyLt_isSome_comm]

instance : Std.Symm (Comparable key) := ⟨fun _ _ => Comparable.symm⟩

/-- Keys that have an order and are not below are equal or above. -/
theorem NoOlder.cases {a b : α} (h : NoOlder key a b) (hcmp : Comparable key a b) :
    exactForm (key a) = exactForm (key b) ∨
      compareJson (exactForm (key b)) (exactForm (key a)) = some .lt := by
  unfold NoOlder at h
  unfold Comparable pyLt at hcmp
  rw [compareJson_swap (exactForm (key a)) (exactForm (key b)), ← compareJson_eq_iff]
  split_ifs at hcmp with hord
  · simp only [pyLt, if_pos hord] at h
    cases hc : compareJson (exactForm (key a)) (exactForm (key b)) with
    | none => simp [hc] at hcmp
    | some o =>
        cases o with
        | lt => simp [hc] at h
        | eq => exact .inl rfl
        | gt => exact .inr rfl
  · cases hcmp

theorem NoOlder.trans {a b c : α} (hab : NoOlder key a b) (hbc : NoOlder key b c)
    (hab' : a = b ∨ Comparable key a b) (hbc' : b = c ∨ Comparable key b c) : NoOlder key a c := by
  rcases hab' with rfl | hab'
  · exact hbc
  rcases hbc' with rfl | hbc'
  · exact hab
  intro hac
  have hlt := pyLt_eq_true.1 hac
  rcases hab.cases hab' with heq | hba
  · refine hbc (pyLt_eq_true.2 ?_)
    rw [← heq]
    exact hlt
  · rcases hbc.cases hbc' with heq | hcb
    · refine hab (pyLt_eq_true.2 ?_)
      rw [heq]
      exact hlt
    · have hca := compareJson_trans hcb hba
      rw [compareJson_swap (exactForm (key a)) (exactForm (key c)), hlt] at hca
      exact absurd hca (by simp)

/-- A sorted list has the newest first. -/
theorem sortedNewest_some {items sorted : List α} (h : sortedNewest key items = some sorted) :
    sorted.Perm items ∧ sorted.Pairwise (NoOlder key) := by
  unfold sortedNewest at h
  split_ifs at h with hpair
  obtain rfl := Option.some.inj h
  refine ⟨List.perm_insertionSort _ _, pairwise_insertionSort (fun a _ b _ => noOlder_total a b) ?_⟩
  have hall : ∀ a ∈ items, ∀ b ∈ items, a = b ∨ Comparable key a b := by
    intro a ha b hb
    by_cases hab : a = b
    · exact .inl hab
    · exact .inr (hpair.forall ha hb hab)
  exact fun a ha b hb c hc hab hbc => hab.trans hbc (hall a ha b hb) (hall b hb c hc)

end Newest

end Elyra.Python
