import Mathlib.Tactic
import Mathlib.Algebra.Order.Floor.Div

set_option autoImplicit false

/-! # True division of integers

`a / b` for natural numbers: the quotient rounded to the nearest double, ties to even, and `OverflowError`
where that is none. Rounded up, it is the quotient rounded up as long as `a` is below `2 ** 53`
(`ceil_trueDiv`); from there on it may be too small. -/

namespace Elyra.Python

/-- `a / b` to the nearest integer, ties to even. -/
def roundDiv (a b : Nat) : Nat :=
  if 2 * (a % b) < b ∨ 2 * (a % b) = b ∧ a / b % 2 = 0 then a / b else a / b + 1

/-- A number that is `significand * 2 ** exponent`. -/
structure Dyadic where
  significand : Nat
  exponent : Int
  deriving DecidableEq, Repr

/-- `math.ceil` -/
def Dyadic.ceil (x : Dyadic) : Nat :=
  if 0 ≤ x.exponent then x.significand * 2 ^ x.exponent.toNat
  else x.significand ⌈/⌉ 2 ^ (-x.exponent).toNat

/-- The exponent of the greatest power of two that is not above `a / b`. -/
def magnitude (a b : Nat) : Int :=
  if b ≤ a then (a / b).log2 else -(((b - 1) / a).log2 + 1)

/-- The exponent of the doubles next to `a / b`: they have 53 bits, or are subnormal. -/
def spacing (a b : Nat) : Int := max (-1074) (magnitude a b - 52)

/-- `a / b`; `none` is the `OverflowError`. -/
def trueDiv (a b : Nat) : Option Dyadic :=
  if a = 0 then some ⟨0, 0⟩
  else
    let e := spacing a b
    let significand := roundDiv (a * 2 ^ (-e).toNat) (b * 2 ^ e.toNat)
    if significand * 2 ^ e.toNat < 2 ^ 1024 then some ⟨significand, e⟩ else none

/-- A tie goes to the even neighbour. -/
example : (trueDiv (2 ^ 53 + 1) 1).map Dyadic.ceil = some (2 ^ 53) := by decide +kernel

variable {a b k : Nat}

theorem roundDiv_le (hb : 0 < b) (h : a ≤ k * b) : roundDiv a b ≤ k := by
  have hle : a / b ≤ k := Nat.div_le_of_le_mul (by rwa [Nat.mul_comm] at h)
  unfold roundDiv
  split
  · exact hle
  · next hup =>
    -- A quotient that is rounded up has a remainder, so it is not `k` yet.
    refine Nat.succ_le_of_lt (lt_of_le_of_ne hle fun heq => hup (.inl ?_))
    have hmod := Nat.div_add_mod a b
    rw [heq, Nat.mul_comm] at hmod
    omega

/-- More than half of a unit above `k` is rounded to more than `k`. -/
theorem lt_roundDiv (hb : 0 < b) (h : 2 * (k * b) + b < 2 * a) : k < roundDiv a b := by
  have hle : k ≤ a / b := (Nat.le_div_iff_mul_le hb).2 (by omega)
  unfold roundDiv
  split
  · next hdown =>
    refine lt_of_le_of_ne hle fun heq => ?_
    have hmod := Nat.div_add_mod a b
    rw [← heq, Nat.mul_comm] at hmod
    omega
  · omega

theorem le_mul_ceilDiv (hb : 0 < b) : a ≤ b * (a ⌈/⌉ b) := (ceilDiv_le_iff_le_mul hb).1 le_rfl

theorem mul_pred_ceilDiv_lt (hb : 0 < b) (ha : 0 < a) : b * (a ⌈/⌉ b - 1) < a := by
  have hle := le_mul_ceilDiv (a := a) hb
  by_contra hne
  have hpred : a ⌈/⌉ b ≤ a ⌈/⌉ b - 1 := (ceilDiv_le_iff_le_mul hb).2 (Nat.not_lt.1 hne)
  have hzero : a ⌈/⌉ b = 0 := by omega
  rw [hzero, Nat.mul_zero] at hle
  omega

theorem ceilDiv_eq {n : Nat} (hb : 0 < b) (hle : a ≤ b * n) (hlt : b * (n - 1) < a) : a ⌈/⌉ b = n := by
  refine le_antisymm ((ceilDiv_le_iff_le_mul hb).2 hle) ?_
  by_contra hne
  have hpred : a ⌈/⌉ b ≤ n - 1 := by omega
  exact absurd ((ceilDiv_le_iff_le_mul hb).1 hpred) (Nat.not_le.2 hlt)

/-- Below `2 ** 53`, the doubles next to a quotient are near enough for it to be rounded up rightly. -/
theorem ceil_trueDiv (hb : 0 < b) (hab : b ≤ a) (ha : a < 2 ^ 53) :
    (trueDiv a b).map Dyadic.ceil = some (a ⌈/⌉ b) := by
  obtain ⟨m, hm⟩ : ∃ m, (a / b).log2 = m := ⟨_, rfl⟩
  have hquot : a / b ≠ 0 := (Nat.div_pos hab hb).ne'
  have hpow : b * 2 ^ m ≤ a := by
    rw [Nat.mul_comm, ← Nat.le_div_iff_mul_le hb, ← hm]
    exact Nat.log2_self_le hquot
  have hm52 : m ≤ 52 := by
    have hlt : a / b < 2 ^ 53 := (Nat.div_le_self a b).trans_lt ha
    have := (Nat.log2_lt hquot).2 hlt
    omega
  obtain ⟨j, hj⟩ := Nat.exists_eq_add_of_le hm52
  have hspacing : spacing a b = -(j : Int) := by
    rw [spacing, magnitude, if_pos hab, hm]
    omega
  -- Half of the distance `2 ** -j` of two doubles is less than the smallest fraction of a quotient.
  have hhalf : b < 2 * 2 ^ j := by
    refine lt_of_mul_lt_mul_right (a := 2 ^ m) (hpow.trans_lt (ha.trans_eq ?_)) (Nat.zero_le _)
    rw [Nat.mul_assoc, ← pow_add, Nat.add_comm j m, ← hj]
    rfl
  obtain ⟨n, hn⟩ : ∃ n, a ⌈/⌉ b = n := ⟨_, rfl⟩
  have hle : a ≤ b * n := hn ▸ le_mul_ceilDiv hb
  have hlt : b * (n - 1) < a := hn ▸ mul_pred_ceilDiv_lt hb (by omega)
  have hupper : roundDiv (a * 2 ^ j) b ≤ 2 ^ j * n := by
    refine roundDiv_le hb ?_
    calc a * 2 ^ j ≤ b * n * 2 ^ j := Nat.mul_le_mul_right _ hle
      _ = 2 ^ j * n * b := by ring
  have hlower : 2 ^ j * (n - 1) < roundDiv (a * 2 ^ j) b := by
    refine lt_roundDiv hb ?_
    calc 2 * (2 ^ j * (n - 1) * b) + b < 2 * (2 ^ j * (n - 1) * b) + 2 * 2 ^ j := by omega
      _ = 2 * ((b * (n - 1) + 1) * 2 ^ j) := by ring
      _ ≤ 2 * (a * 2 ^ j) := Nat.mul_le_mul_left _ (Nat.mul_le_mul_right _ hlt)
  have hfits : roundDiv (a * 2 ^ j) b < 2 ^ 1024 := by
    have hna : n ≤ a := hn ▸ (ceilDiv_le_iff_le_mul hb).2 (Nat.le_mul_of_pos_left a hb)
    calc roundDiv (a * 2 ^ j) b ≤ 2 ^ j * n := hupper
      _ ≤ 2 ^ 52 * 2 ^ 53 := Nat.mul_le_mul (Nat.pow_le_pow_right (by decide) (by omega)) (by omega)
      _ < 2 ^ 1024 := by decide +kernel
  have hdiv : trueDiv a b = some ⟨roundDiv (a * 2 ^ j) b, -(j : Int)⟩ := by
    rw [trueDiv, if_neg (by omega), hspacing]
    simp only [neg_neg, Int.toNat_natCast, Int.toNat_neg_natCast, pow_zero, Nat.mul_one, if_pos hfits]
  rw [hdiv, Option.map_some, hn]
  refine congrArg some ?_
  unfold Dyadic.ceil
  split
  · next hj0 =>
    obtain rfl : j = 0 := by simpa using hj0
    simp only [pow_zero, Nat.one_mul] at hupper hlower
    simp only [Int.natCast_zero, neg_zero, Int.toNat_zero, pow_zero, Nat.mul_one] at hupper hlower ⊢
    omega
  · simp only [neg_neg, Int.toNat_natCast]
    exact ceilDiv_eq (Nat.two_pow_pos j) hupper hlower

/-- A quotient below one is rounded up to at most one. -/
theorem ceil_trueDiv_le_one (hab : a < b) : ∃ n ≤ 1, (trueDiv a b).map Dyadic.ceil = some n := by
  by_cases ha : a = 0
  · exact ⟨0, Nat.zero_le 1, by rw [trueDiv, if_pos ha]; rfl⟩
  obtain ⟨k, hk⟩ : ∃ k, ((b - 1) / a).log2 = k := ⟨_, rfl⟩
  have hquot : (b - 1) / a ≠ 0 := (Nat.div_pos (by omega) (by omega)).ne'
  have hpow : 2 ^ k * a < b := by
    have hle : 2 ^ k * a ≤ b - 1 := by
      rw [← Nat.le_div_iff_mul_le (by omega), ← hk]
      exact Nat.log2_self_le hquot
    omega
  obtain ⟨j, hj⟩ : ∃ j : Nat, spacing a b = -(j : Int) ∧ j ≤ k + 53 := by
    refine ⟨min 1074 (k + 53), ?_, min_le_right _ _⟩
    rw [spacing, magnitude, if_neg (by omega), hk]
    omega
  have hone : roundDiv (a * 2 ^ j) b ≤ 2 ^ j := by
    refine roundDiv_le (by omega) ?_
    rw [Nat.mul_comm]
    exact Nat.mul_le_mul_left _ hab.le
  have hfits : roundDiv (a * 2 ^ j) b < 2 ^ 1024 := by
    have hle : roundDiv (a * 2 ^ j) b ≤ 2 ^ 53 := by
      refine roundDiv_le (by omega) ?_
      calc a * 2 ^ j ≤ a * 2 ^ (k + 53) := Nat.mul_le_mul_left _ (Nat.pow_le_pow_right (by decide) hj.2)
        _ = 2 ^ 53 * (2 ^ k * a) := by ring
        _ ≤ 2 ^ 53 * b := Nat.mul_le_mul_left _ hpow.le
    exact hle.trans_lt (by decide +kernel)
  have hdiv : trueDiv a b = some ⟨roundDiv (a * 2 ^ j) b, -(j : Int)⟩ := by
    rw [trueDiv, if_neg ha, hj.1]
    simp only [neg_neg, Int.toNat_natCast, Int.toNat_neg_natCast, pow_zero, Nat.mul_one, if_pos hfits]
  refine ⟨_, ?_, by rw [hdiv, Option.map_some]⟩
  unfold Dyadic.ceil
  split
  · next hj0 =>
    obtain rfl : j = 0 := by simpa using hj0
    simpa using hone
  · simp only [neg_neg, Int.toNat_natCast]
    rw [ceilDiv_le_iff_le_mul (Nat.two_pow_pos j), Nat.mul_one]
    exact hone

end Elyra.Python
