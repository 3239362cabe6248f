import Mathlib.Algebra.Order.Floor.Div
import Mathlib.Data.List.Basic
import Mathlib.Tactic

set_option autoImplicit false

/-! # Blocks of a list

A list cut into consecutive blocks of one size, the last of which may be shorter. A reader that gets the
list in pieces can cut off the complete blocks of what it has and keep the rest for the next piece
(`complete_append`, `rest_append`). -/

namespace Elyra.Blocks

variable {α : Type}

/-- The complete blocks. -/
def complete (size : Nat) (l : List α) : List (List α) :=
  (List.range (l.length / size)).map fun index => (l.drop (index * size)).take size

/-- What follows them. -/
def rest (size : Nat) (l : List α) : List α := l.drop (l.length / size * size)

/-- All blocks. -/
def blocks (size : Nat) (l : List α) : List (List α) :=
  (List.range (l.length ⌈/⌉ size)).map fun index => (l.drop (index * size)).take size

variable {size : Nat} {l l' : List α}

@[simp] theorem complete_length : (complete size l).length = l.length / size := by
  rw [complete, List.length_map, List.length_range]

@[simp] theorem blocks_length : (blocks size l).length = l.length ⌈/⌉ size := by
  rw [blocks, List.length_map, List.length_range]

theorem rest_length : (rest size l).length = l.length % size := by
  rw [rest, List.length_drop, Nat.mul_comm, Nat.mod_eq_sub_mul_div]

theorem ceilDiv_of_dvd (hsize : 0 < size) {n : Nat} (h : n % size = 0) : n ⌈/⌉ size = n / size := by
  have hn := Nat.div_add_mod n size
  rw [Nat.ceilDiv_eq_add_pred_div]
  conv_lhs => rw [← hn, h, Nat.add_zero, Nat.add_sub_assoc hsize, Nat.mul_add_div hsize,
    Nat.div_eq_of_lt (Nat.sub_lt hsize Nat.one_pos), Nat.add_zero]

theorem ceilDiv_of_not_dvd (hsize : 0 < size) {n : Nat} (h : n % size ≠ 0) :
    n ⌈/⌉ size = n / size + 1 := by
  have hn := Nat.div_add_mod n size
  have hlt := Nat.mod_lt n hsize
  have hsum : n + size - 1 = size * (n / size + 1) + (n % size - 1) := by
    rw [Nat.mul_add, Nat.mul_one]
    omega
  rw [Nat.ceilDiv_eq_add_pred_div, hsum, Nat.mul_add_div hsize,
    Nat.div_eq_of_lt ((Nat.sub_le _ _).trans_lt hlt), Nat.add_zero]

/-- The blocks are the complete ones, and the rest if there is one. -/
theorem blocks_eq (hsize : 0 < size) :
    blocks size l = complete size l ++ if rest size l = [] then [] else [rest size l] := by
  have hlen : (rest size l).length = l.length % size := rest_length
  split
  · next hrest =>
    rw [hrest, List.length_nil] at hlen
    rw [List.append_nil, blocks, complete, ceilDiv_of_dvd hsize hlen.symm]
  · next hrest =>
    have hmod : l.length % size ≠ 0 := by
      rw [← hlen]
      exact (List.length_pos_iff.2 hrest).ne'
    -- The last block is what is left, which is shorter than a block.
    have hlast : (l.drop (l.length / size * size)).take size = rest size l := by
      refine List.take_of_length_le ?_
      rw [← rest, hlen]
      exact (Nat.mod_lt _ hsize).le
    rw [blocks, complete, ceilDiv_of_not_dvd hsize hmod, List.range_succ, List.map_append,
      List.map_singleton, hlast]

theorem drop_complete : (l ++ l').drop (l.length / size * size) = rest size l ++ l' := by
  rw [List.drop_append_of_le_length (Nat.div_mul_le_self _ _), rest]

theorem append_length (size : Nat) (l l' : List α) :
    (l ++ l').length = l.length / size * size + (rest size l ++ l').length := by
  have hmod := Nat.div_add_mod l.length size
  rw [List.length_append, List.length_append, rest_length, Nat.mul_comm]
  omega

theorem append_div (hsize : 0 < size) :
    (l ++ l').length / size = l.length / size + (rest size l ++ l').length / size := by
  rw [append_length size l l', Nat.mul_comm, Nat.mul_add_div hsize]

/-- The complete blocks of what has come so far, and those that the next piece completes. -/
theorem complete_append (hsize : 0 < size) :
    complete size (l ++ l') = complete size l ++ complete size (rest size l ++ l') := by
  rw [complete, append_div hsize, List.range_add, List.map_append, List.map_map]
  congr 1
  · refine List.map_congr_left fun index hindex => ?_
    have hin : (index + 1) * size ≤ l.length :=
      (Nat.le_div_iff_mul_le hsize).1 (List.mem_range.1 hindex)
    rw [Nat.succ_mul] at hin
    rw [List.drop_append_of_le_length (by omega), List.take_append_of_le_length]
    rw [List.length_drop]
    omega
  · refine List.map_congr_left fun index _ => ?_
    rw [Function.comp_apply, Nat.add_mul, ← List.drop_drop, drop_complete]

theorem rest_append (hsize : 0 < size) : rest size (l ++ l') = rest size (rest size l ++ l') := by
  rw [rest, append_div hsize, Nat.add_mul, ← List.drop_drop, drop_complete]
  rfl

end Elyra.Blocks
