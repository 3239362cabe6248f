import Elyra.Python.Text

set_option autoImplicit false

/-! # Packed numbers

`struct.unpack_from` for little-endian numbers: an unsigned number is its octets, least significant
first, and a signed one is read in two's complement. -/

namespace Elyra.Python

/-- The number with these octets, least significant first. -/
def ofLE : Bytes → Nat
  | [] => 0
  | b :: bs => b.toNat + 256 * ofLE bs

/-- The `size` octets of a number. -/
def toLE : Nat → Nat → Bytes
  | 0, _ => []
  | size + 1, n => UInt8.ofNat (n % 256) :: toLE size (n / 256)

theorem toLE_length (size n : Nat) : (toLE size n).length = size := by
  induction size generalizing n with
  | zero => rfl
  | succ size ih => rw [toLE, List.length_cons, ih]

theorem ofLE_toLE {size n : Nat} (h : n < 256 ^ size) : ofLE (toLE size n) = n := by
  induction size generalizing n with
  | zero =>
      obtain rfl : n = 0 := by simpa using h
      rfl
  | succ size ih =>
      have hdiv : n / 256 < 256 ^ size :=
        Nat.div_lt_of_lt_mul (by rwa [pow_succ, Nat.mul_comm] at h)
      have hbyte : (UInt8.ofNat (n % 256)).toNat = n % 256 :=
        UInt8.toNat_ofNat_of_lt' (Nat.mod_lt n (by decide))
      rw [toLE, ofLE, ih hdiv, hbyte]
      exact Nat.mod_add_div n 256

/-- `data[offset:offset + size]`. -/
def slice (data : Bytes) (offset size : Nat) : Bytes := (data.drop offset).take size

/-- An unsigned field of `struct.unpack_from`; `none` is the `struct.error`. -/
def unpackAt (size : Nat) (data : Bytes) (offset : Nat) : Option Nat :=
  if offset + size ≤ data.length then some (ofLE (slice data offset size)) else none

/-- The same octets as a signed number. -/
def toSigned (size n : Nat) : Int := if 2 * n < 256 ^ size then n else (n : Int) - 256 ^ size

/-- The octets of a signed number, as an unsigned one. -/
def ofSigned (size : Nat) (z : Int) : Nat := (z % 256 ^ size).toNat

variable {data : Bytes} {offset size : Nat}

theorem slice_length (h : offset + size ≤ data.length) : (slice data offset size).length = size := by
  rw [slice, List.length_take, List.length_drop]
  omega

theorem slice_slice {offset' size' : Nat} (h : offset' + size' ≤ size) :
    slice (slice data offset size) offset' size' = slice data (offset + offset') size' := by
  rw [slice, slice, slice, List.drop_take, List.take_take, List.drop_drop]
  congr 1
  omega

theorem unpackAt_of_le (h : offset + size ≤ data.length) :
    unpackAt size data offset = some (ofLE (slice data offset size)) := if_pos h

/-- A field is read back where it has been packed. -/
theorem unpackAt_toLE (before after : Bytes) {n : Nat} (h : n < 256 ^ size)
    (hoffset : offset = before.length) :
    unpackAt size (before ++ (toLE size n ++ after)) offset = some n := by
  have hlen := toLE_length size n
  subst hoffset
  rw [unpackAt_of_le (by simp only [List.length_append]; omega), slice, List.drop_left,
    List.take_left' hlen, ofLE_toLE h]

theorem toSigned_ofSigned {z : Int} (h : -(256 ^ size : Int) ≤ 2 * z ∧ 2 * z < 256 ^ size) :
    toSigned size (ofSigned size z) = z := by
  have hpos : (0 : Int) < 256 ^ size := by positivity
  have hcast : ((256 ^ size : Nat) : Int) = 256 ^ size := by push_cast; rfl
  by_cases hz : 0 ≤ z
  · have hmod : z % 256 ^ size = z := Int.emod_eq_of_lt hz (by omega)
    unfold toSigned ofSigned
    rw [hmod, if_pos (by omega)]
    omega
  · have hmod : z % 256 ^ size = z + 256 ^ size := by
      rw [← Int.add_emod_right, Int.emod_eq_of_lt (by omega) (by omega)]
    unfold toSigned ofSigned
    rw [hmod, if_neg (by omega)]
    omega

theorem ofSigned_lt (size : Nat) (z : Int) : ofSigned size z < 256 ^ size := by
  have hpos : (0 : Int) < 256 ^ size := by positivity
  have hcast : ((256 ^ size : Nat) : Int) = 256 ^ size := by push_cast; rfl
  have hlt := Int.emod_lt_of_pos z hpos
  have hnonneg := Int.emod_nonneg z hpos.ne'
  unfold ofSigned
  omega

end Elyra.Python
