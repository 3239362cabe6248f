import Elyra.Python.JsonLimits

set_option autoImplicit false

/-! # Digits of all scripts

`str.isdigit` accepts the decimal digits of every script, and superscripts, circled digits and the like
besides; `int` reads the decimal ones only. The tables are those of Unicode 14. -/

namespace Elyra.Python

/-- The decimal zeros; the digits from one to nine follow each. -/
def decimalZeros : List Nat :=
  [0x30, 0x660, 0x6f0, 0x7c0, 0x966, 0x9e6, 0xa66, 0xae6, 0xb66, 0xbe6, 0xc66, 0xce6, 0xd66, 0xde6,
    0xe50, 0xed0, 0xf20, 0x1040, 0x1090, 0x17e0, 0x1810, 0x1946, 0x19d0, 0x1a80, 0x1a90, 0x1b50, 0x1bb0,
    0x1c40, 0x1c50, 0xa620, 0xa8d0, 0xa900, 0xa9d0, 0xa9f0, 0xaa50, 0xabf0, 0xff10] ++
  [0x104a0, 0x10d30, 0x11066, 0x110f0, 0x11136, 0x111d0, 0x112f0, 0x11450, 0x114d0, 0x11650, 0x116c0,
    0x11730, 0x118e0, 0x11950, 0x11c50, 0x11d50, 0x11da0, 0x16a60, 0x16ac0, 0x16b50, 0x1d7ce, 0x1d7d8,
    0x1d7e2, 0x1d7ec, 0x1d7f6, 0x1e140, 0x1e2f0, 0x1e950, 0x1fbf0]

/-- The other digits, as ranges. -/
def otherDigits : List (Nat × Nat) :=
  [(0xb2, 0xb3), (0xb9, 0xb9), (0x1369, 0x1371), (0x19da, 0x19da), (0x2070, 0x2070), (0x2074, 0x2079),
    (0x2080, 0x2089), (0x2460, 0x2468), (0x2474, 0x247c), (0x2488, 0x2490), (0x24ea, 0x24ea),
    (0x24f5, 0x24fd), (0x24ff, 0x24ff), (0x2776, 0x277e), (0x2780, 0x2788), (0x278a, 0x2792),
    (0x10a40, 0x10a43), (0x10e60, 0x10e68), (0x11052, 0x1105a), (0x1f100, 0x1f10a)]

/-- The value of a decimal digit. -/
def decimalValue (c : Nat) : Option Nat :=
  (decimalZeros.find? fun z => decide (z ≤ c ∧ c < z + 10)).map (c - ·)

/-- `str.isdigit` of one character. -/
def isUnicodeDigit (c : Nat) : Bool :=
  (decimalValue c).isSome || otherDigits.any fun range => decide (range.1 ≤ c ∧ c ≤ range.2)

/-- `int` of a text of digits; `none` is the `ValueError` over one that is not decimal. -/
def decimalsVal (s : PyStr) : Option Nat :=
  (s.mapM decimalValue).map fun ds => ds.foldl (fun acc d => acc * 10 + d) 0

/-! ## ASCII -/

theorem decimalValue_ascii {c : Nat} (h : isDigit c = true) : decimalValue c = some (c - 48) := by
  simp only [isDigit, Bool.and_eq_true, decide_eq_true_eq] at h
  have hfirst : decimalZeros = 0x30 :: decimalZeros.tail := rfl
  have hfind : decimalZeros.find? (fun z => decide (z ≤ c ∧ c < z + 10)) = some 0x30 := by
    rw [hfirst]
    exact List.find?_cons_of_pos (decide_eq_true (by omega))
  rw [decimalValue, hfind]
  rfl

theorem isUnicodeDigit_ascii {c : Nat} (h : isDigit c = true) : isUnicodeDigit c = true := by
  rw [isUnicodeDigit, decimalValue_ascii h]
  rfl

theorem decimalsVal_ascii {s : PyStr} (h : s.all isDigit = true) :
    decimalsVal s = some (digitsVal s) := by
  have hvalues : s.mapM decimalValue = some (s.map (· - 48)) := by
    induction s with
    | nil => rfl
    | cons c s ih =>
        simp only [List.all_cons, Bool.and_eq_true] at h
        rw [List.mapM_cons, decimalValue_ascii h.1, ih h.2]
        rfl
  rw [decimalsVal, hvalues, Option.map_some, List.foldl_map, digitsVal]

/-! ## Encoding -/

/-- A digit is a character that UTF-8 encodes. -/
theorem isUnicodeDigit_range {c : Nat} (h : isUnicodeDigit c = true) :
    c < 0xd800 ∨ 0xe000 ≤ c ∧ c < 0x110000 := by
  simp only [isUnicodeDigit, Bool.or_eq_true, List.any_eq_true, decide_eq_true_eq] at h
  rcases h with h | ⟨range, hmem, hle, hge⟩
  · obtain ⟨v, hv⟩ := Option.isSome_iff_exists.1 h
    obtain ⟨z, hzero, -⟩ := Option.map_eq_some_iff.1 hv
    have hbounds := List.find?_some hzero
    have hmem := List.mem_of_find?_eq_some hzero
    have hall : ∀ z ∈ decimalZeros, z + 10 ≤ 0xd800 ∨ 0xe000 ≤ z ∧ z + 10 ≤ 0x110000 := by
      decide
    have := hall z hmem
    simp only [decide_eq_true_eq] at hbounds
    omega
  · have hall : ∀ range ∈ otherDigits, range.2 < 0xd800 ∨ 0xe000 ≤ range.1 ∧ range.2 < 0x110000 := by
      decide
    have := hall range hmem
    omega

theorem utf8_of_digits {s : PyStr} (h : s.all isUnicodeDigit = true) : Utf8 s := by
  intro c hc
  have hrange := isUnicodeDigit_range (List.all_eq_true.1 h c hc)
  unfold utf8Char
  split_ifs
  all_goals first | rfl | omega

end Elyra.Python
