import Elyra.Python.Struct

set_option autoImplicit false

/-! # UTF-16

`str.encode("utf-16-le")` and `bytes.decode("utf-16-le", "strict")`: a code point above `0xFFFF` is two
units, and a unit of such a pair that stands alone is refused. -/

namespace Elyra.Python

def isHighSurrogate (u : Nat) : Bool := 0xD800 ≤ u && u < 0xDC00

def isLowSurrogate (u : Nat) : Bool := 0xDC00 ≤ u && u < 0xE000

/-- The octets of one code point; `none` for surrogates and for numbers that are no code point. -/
def utf16Char (c : Nat) : Option Bytes :=
  if isHighSurrogate c || isLowSurrogate c then none
  else if c < 0x10000 then some (toLE 2 c)
  else if c < 0x110000 then
    some (toLE 2 (0xD800 + (c - 0x10000) / 0x400) ++ toLE 2 (0xDC00 + (c - 0x10000) % 0x400))
  else none

/-- `text.encode("utf-16-le")`; `none` is the `UnicodeEncodeError`. -/
def encodeUtf16 : PyStr → Option Bytes
  | [] => some []
  | c :: rest =>
      match utf16Char c, encodeUtf16 rest with
      | some b, some bs => some (b ++ bs)
      | _, _ => none

/-- `raw.decode("utf-16-le", "strict")`; `none` is the `UnicodeDecodeError`. -/
def decodeUtf16 : Bytes → Option PyStr
  | [] => some []
  | [_] => none
  | b0 :: b1 :: rest =>
      let u := ofLE [b0, b1]
      if isHighSurrogate u then
        match rest with
        | b2 :: b3 :: rest =>
            let v := ofLE [b2, b3]
            if isLowSurrogate v then
              let c := 0x10000 + (u - 0xD800) * 0x400 + (v - 0xDC00)
              (decodeUtf16 rest).map (c :: ·)
            else none
        | _ => none
      else if isLowSurrogate u then none
      else (decodeUtf16 rest).map (u :: ·)

theorem toLE_two (n : Nat) : toLE 2 n = [UInt8.ofNat (n % 256), UInt8.ofNat (n / 256 % 256)] := rfl

theorem ofLE_toLE_two {n : Nat} (h : n < 0x10000) :
    ofLE [UInt8.ofNat (n % 256), UInt8.ofNat (n / 256 % 256)] = n := by
  rw [← toLE_two]
  exact ofLE_toLE h

/-- One code point is read back in front of anything. -/
theorem decodeUtf16_utf16Char {c : Nat} {b : Bytes} (h : utf16Char c = some b) (rest : Bytes) :
    decodeUtf16 (b ++ rest) = (decodeUtf16 rest).map (c :: ·) := by
  unfold utf16Char at h
  split_ifs at h with hsurrogate hsmall hlarge
  · obtain rfl := Option.some.inj h
    rw [Bool.or_eq_true, not_or, Bool.not_eq_true, Bool.not_eq_true] at hsurrogate
    rw [toLE_two, List.cons_append, List.cons_append, List.nil_append]
    conv_lhs => unfold decodeUtf16
    simp only [ofLE_toLE_two hsmall, hsurrogate.1, hsurrogate.2, Bool.false_eq_true, if_false]
  · obtain rfl := Option.some.inj h
    have hhigh : isHighSurrogate (0xD800 + (c - 0x10000) / 0x400) = true := by
      simp only [isHighSurrogate, Bool.and_eq_true, decide_eq_true_eq]
      omega
    have hlow : isLowSurrogate (0xDC00 + (c - 0x10000) % 0x400) = true := by
      simp only [isLowSurrogate, Bool.and_eq_true, decide_eq_true_eq]
      omega
    have hvalue : 0x10000 + (0xD800 + (c - 0x10000) / 0x400 - 0xD800) * 0x400 +
        (0xDC00 + (c - 0x10000) % 0x400 - 0xDC00) = c := by omega
    have hfirst : 0xD800 + (c - 0x10000) / 0x400 < 0x10000 := by omega
    have hsecond : 0xDC00 + (c - 0x10000) % 0x400 < 0x10000 := by omega
    rw [toLE_two, toLE_two]
    simp only [List.cons_append, List.nil_append]
    rw [decodeUtf16, ofLE_toLE_two hfirst, ofLE_toLE_two hsecond]
    simp only [hhigh, hlow, hvalue, if_true]

/-- **What has been encoded is read back.** -/
theorem decodeUtf16_encodeUtf16 {s : PyStr} {bs : Bytes} (h : encodeUtf16 s = some bs) :
    decodeUtf16 bs = some s := by
  induction s generalizing bs with
  | nil =>
      obtain rfl := Option.some.inj h
      rfl
  | cons c s ih =>
      rw [encodeUtf16] at h
      split at h
      · next b bs' hb hbs =>
        obtain rfl := Option.some.inj h
        rw [decodeUtf16_utf16Char hb, ih hbs]
        rfl
      · cases h

/-- Encoded text is a whole number of units. -/
theorem encodeUtf16_even {s : PyStr} {bs : Bytes} (h : encodeUtf16 s = some bs) :
    bs.length % 2 = 0 := by
  induction s generalizing bs with
  | nil =>
      obtain rfl := Option.some.inj h
      rfl
  | cons c s ih =>
      rw [encodeUtf16] at h
      split at h
      · next b bs' hb hbs =>
        obtain rfl := Option.some.inj h
        have hunit : b.length % 2 = 0 := by
          unfold utf16Char at hb
          split_ifs at hb <;> obtain rfl := Option.some.inj hb <;>
            simp only [List.length_append, toLE_length]
        have hrest := ih hbs
        rw [List.length_append]
        omega
      · cases h

end Elyra.Python
