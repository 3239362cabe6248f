import Mathlib.Tactic

set_option autoImplicit false

/-! # Descriptor tables

A table of numbered slots in which a new entry always takes the lowest free number, as POSIX requires
of descriptors. `get` is what a number refers to, `put` adds an entry, `close` frees a number. -/

namespace Elyra.Posix

/-- Slot `n` of the table is its `n`-th element; a number beyond its length is free. -/
abbrev Table (α : Type) := List (Option α)

namespace Table

variable {α : Type}

def get (t : Table α) (n : Nat) : Option α := (t[n]?).getD none

/-- The lowest number that refers to nothing. -/
def lowestFree : Table α → Nat
  | [] => 0
  | none :: _ => 0
  | some _ :: t => lowestFree t + 1

/-- The table with an entry at its lowest free number. -/
def put (x : α) : Table α → Table α
  | [] => [some x]
  | none :: t => some x :: t
  | some y :: t => some y :: put x t

def close (n : Nat) (t : Table α) : Table α := t.set n none

theorem get_lowestFree (t : Table α) : t.get t.lowestFree = none := by
  induction t with
  | nil => rfl
  | cons slot t ih =>
      cases slot with
      | none => rfl
      | some y => exact ih

theorem get_put (t : Table α) (x : α) (n : Nat) :
    (t.put x).get n = if n = t.lowestFree then some x else t.get n := by
  induction t generalizing n with
  | nil =>
      cases n with
      | zero => rfl
      | succ n => rfl
  | cons slot t ih =>
      cases slot with
      | none =>
          cases n with
          | zero => rfl
          | succ n => rfl
      | some y =>
          cases n with
          | zero => rfl
          | succ n =>
              have hget := ih n
              simp only [get, put, lowestFree, List.getElem?_cons_succ, Nat.succ.injEq] at hget ⊢
              exact hget

theorem get_close (t : Table α) (n m : Nat) :
    (t.close n).get m = if m = n then none else t.get m := by
  unfold get close
  by_cases h : m = n
  · subst h
    simp only [if_true, List.getElem?_set]
    split
    · rfl
    · rfl
  · rw [if_neg h, List.getElem?_set_ne (Ne.symm h)]

/-- A number in use is not the one a new entry takes. -/
theorem ne_lowestFree {t : Table α} {n : Nat} {x : α} (h : t.get n = some x) :
    n ≠ t.lowestFree := by
  rintro rfl
  rw [get_lowestFree] at h
  cases h

theorem get_put_of_some {t : Table α} {n : Nat} {x : α} (h : t.get n = some x) (y : α) :
    (t.put y).get n = some x := by
  rw [get_put, if_neg (ne_lowestFree h), h]

end Table

end Elyra.Posix
