import Mathlib.Tactic
import Mathlib.Data.List.Basic

set_option autoImplicit false

/-! # Text and bytes

A Python `str` is a sequence of code points, lone surrogates included (`os.fsdecode` produces them
for file names that are not UTF-8), so text is modelled as a list of natural numbers rather than as
a `String`. `encodeUtf8` is `str.encode("utf-8")` with the strict error handler: it fails on
surrogates and on anything above `0x10FFFF`. `decodeUtf8` is `bytes.decode("utf-8")`, strict as
well: overlong forms, surrogates and truncated sequences are refused. -/

namespace Elyra.Python

/-- A Python `str`: its code points in order. -/
abbrev PyStr := List Nat

instance PyStr.lawfulBEq : LawfulBEq PyStr := inferInstance

/-- A Python `bytes` object. -/
abbrev Bytes := List UInt8

/-- The code points of a literal. -/
def py (s : String) : PyStr := s.toList.map Char.toNat

/-! ## UTF-8 -/

/-- The UTF-8 octets of one code point; `none` for surrogates and for numbers that are no code
    point. -/
def utf8Char (c : Nat) : Option Bytes :=
  if c < 0x80 then some [UInt8.ofNat c]
  else if c < 0x800 then some [UInt8.ofNat (0xC0 + c / 64), UInt8.ofNat (0x80 + c % 64)]
  else if 0xD800 ≤ c ∧ c < 0xE000 then none
  else if c < 0x10000 then
    some [UInt8.ofNat (0xE0 + c / 4096), UInt8.ofNat (0x80 + c / 64 % 64),
      UInt8.ofNat (0x80 + c % 64)]
  else if c < 0x110000 then
    some [UInt8.ofNat (0xF0 + c / 262144), UInt8.ofNat (0x80 + c / 4096 % 64),
      UInt8.ofNat (0x80 + c / 64 % 64), UInt8.ofNat (0x80 + c % 64)]
  else none

/-- `text.encode("utf-8")`; `none` is the `UnicodeEncodeError`. -/
def encodeUtf8 : PyStr → Option Bytes
  | [] => some []
  | c :: rest =>
      match utf8Char c, encodeUtf8 rest with
      | some b, some bs => some (b ++ bs)
      | _, _ => none

/-- A continuation octet `10xxxxxx`. -/
def isCont (b : UInt8) : Bool := 0x80 ≤ b.toNat && b.toNat < 0xC0

/-- `raw.decode("utf-8")`; `none` is the `UnicodeDecodeError`. -/
def decodeUtf8 : Bytes → Option PyStr
  | [] => some []
  | b0 :: rest =>
      if b0.toNat < 0x80 then (decodeUtf8 rest).map (b0.toNat :: ·)
      else if b0.toNat < 0xC2 then none
      else if b0.toNat < 0xE0 then
        match rest with
        | b1 :: rest =>
            let c := (b0.toNat - 0xC0) * 64 + (b1.toNat - 0x80)
            if isCont b1 then (decodeUtf8 rest).map (c :: ·) else none
        | _ => none
      else if b0.toNat < 0xF0 then
        match rest with
        | b1 :: b2 :: rest =>
            let c := (b0.toNat - 0xE0) * 4096 + (b1.toNat - 0x80) * 64 + (b2.toNat - 0x80)
            if isCont b1 && isCont b2 && decide (0x800 ≤ c)
                && !(decide (0xD800 ≤ c) && decide (c < 0xE000)) then
              (decodeUtf8 rest).map (c :: ·)
            else none
        | _ => none
      else if b0.toNat < 0xF5 then
        match rest with
        | b1 :: b2 :: b3 :: rest =>
            let c := (b0.toNat - 0xF0) * 262144 + (b1.toNat - 0x80) * 4096
              + (b2.toNat - 0x80) * 64 + (b3.toNat - 0x80)
            if isCont b1 && isCont b2 && isCont b3 && decide (0x10000 ≤ c)
                && decide (c < 0x110000) then
              (decodeUtf8 rest).map (c :: ·)
            else none
        | _ => none
      else none

attribute [grind =] decodeUtf8

theorem encodeUtf8_cons {c : Nat} {s : PyStr} {bs : Bytes} :
    encodeUtf8 (c :: s) = some bs ↔
      ∃ b bs', utf8Char c = some b ∧ encodeUtf8 s = some bs' ∧ bs = b ++ bs' := by
  simp only [encodeUtf8]
  cases hb : utf8Char c with
  | none => simp
  | some b =>
      cases hs : encodeUtf8 s with
      | none => simp
      | some bs' => simp [eq_comm]

theorem encodeUtf8_append {s t : PyStr} {bs : Bytes} :
    encodeUtf8 (s ++ t) = some bs ↔
      ∃ b₁ b₂, encodeUtf8 s = some b₁ ∧ encodeUtf8 t = some b₂ ∧ bs = b₁ ++ b₂ := by
  induction s generalizing bs with
  | nil => simp [encodeUtf8, eq_comm]
  | cons c s ih =>
      simp only [List.cons_append, encodeUtf8_cons, ih]
      constructor
      · rintro ⟨b, _, hb, ⟨b₁, b₂, h₁, h₂, rfl⟩, rfl⟩
        exact ⟨b ++ b₁, b₂, ⟨b, b₁, hb, h₁, rfl⟩, h₂, by simp⟩
      · rintro ⟨_, b₂, ⟨b, b₁, hb, h₁, rfl⟩, h₂, rfl⟩
        exact ⟨b, b₁ ++ b₂, hb, ⟨b₁, b₂, h₁, h₂, rfl⟩, by simp⟩

/-- Text of code points that have a UTF-8 form is encodable. -/
theorem encodeUtf8_total {s : PyStr} (h : ∀ c ∈ s, (utf8Char c).isSome = true) :
    ∃ bs, encodeUtf8 s = some bs := by
  induction s with
  | nil => exact ⟨[], rfl⟩
  | cons c s ih =>
      obtain ⟨b, hb⟩ := Option.isSome_iff_exists.1 (h c (List.mem_cons_self ..))
      obtain ⟨bs, hbs⟩ := ih fun x hx => h x (List.mem_cons_of_mem _ hx)
      exact ⟨b ++ bs, encodeUtf8_cons.2 ⟨b, bs, hb, hbs, rfl⟩⟩

theorem utf8Char_of_encodeUtf8 {s : PyStr} {bs : Bytes} (h : encodeUtf8 s = some bs) :
    ∀ c ∈ s, (utf8Char c).isSome = true := by
  induction s generalizing bs with
  | nil => intro c hc; exact absurd hc List.not_mem_nil
  | cons x s ih =>
      obtain ⟨b, bs', hb, hs, -⟩ := encodeUtf8_cons.1 h
      intro c hc
      rcases List.mem_cons.1 hc with rfl | hc
      · rw [hb]
        rfl
      · exact ih hs c hc

/-- ASCII text is one octet a character. -/
theorem encodeUtf8_ascii {s : PyStr} (h : ∀ c ∈ s, c < 128) :
    encodeUtf8 s = some (s.map UInt8.ofNat) := by
  induction s with
  | nil => rfl
  | cons c s ih =>
      refine encodeUtf8_cons.2 ⟨[UInt8.ofNat c], s.map UInt8.ofNat, ?_, ?_, rfl⟩
      · exact if_pos (h c (List.mem_cons_self ..))
      · exact ih fun x hx => h x (List.mem_cons_of_mem _ hx)

/-- The four shapes of an encoded code point, octet values as naturals. -/
theorem utf8Char_cases {c : Nat} {b : Bytes} (h : utf8Char c = some b) :
    (c < 0x80 ∧ b = [UInt8.ofNat c]) ∨
    (0x80 ≤ c ∧ c < 0x800 ∧ b = [UInt8.ofNat (0xC0 + c / 64), UInt8.ofNat (0x80 + c % 64)]) ∨
    (0x800 ≤ c ∧ c < 0x10000 ∧ ¬ (0xD800 ≤ c ∧ c < 0xE000) ∧
      b = [UInt8.ofNat (0xE0 + c / 4096), UInt8.ofNat (0x80 + c / 64 % 64),
        UInt8.ofNat (0x80 + c % 64)]) ∨
    (0x10000 ≤ c ∧ c < 0x110000 ∧
      b = [UInt8.ofNat (0xF0 + c / 262144), UInt8.ofNat (0x80 + c / 4096 % 64),
        UInt8.ofNat (0x80 + c / 64 % 64), UInt8.ofNat (0x80 + c % 64)]) := by
  unfold utf8Char at h
  split at h
  · next h1 => exact Or.inl ⟨h1, by simpa using h.symm⟩
  · next h1 =>
    split at h
    · next h2 => exact Or.inr (Or.inl ⟨by omega, h2, by simpa using h.symm⟩)
    · next h2 =>
      split at h
      · exact absurd h (by simp)
      · next h3 =>
        split at h
        · next h4 => exact Or.inr (Or.inr (Or.inl ⟨by omega, h4, h3, by simpa using h.symm⟩))
        · next h4 =>
          split at h
          · next h5 => exact Or.inr (Or.inr (Or.inr ⟨by omega, h5, by simpa using h.symm⟩))
          · exact absurd h (by simp)

theorem toNat_ofNat_lt {n : Nat} (h : n < 256) : (UInt8.ofNat n).toNat = n := by
  simp [UInt8.toNat_ofNat']; omega

/-- Decoding undoes encoding of the first code point. -/
theorem decodeUtf8_utf8Char {c : Nat} {b bs : Bytes} (h : utf8Char c = some b) :
    decodeUtf8 (b ++ bs) = (decodeUtf8 bs).map (c :: ·) := by
  rcases utf8Char_cases h with ⟨h1, rfl⟩ | ⟨h1, h2, rfl⟩ | ⟨h1, h2, h3, rfl⟩ | ⟨h1, h2, rfl⟩
  · have e0 : (UInt8.ofNat c).toNat = c := toNat_ofNat_lt (by omega)
    rw [List.cons_append, List.nil_append, decodeUtf8.eq_def]
    simp only [e0, if_pos h1]
  · have e0 : (UInt8.ofNat (0xC0 + c / 64)).toNat = 0xC0 + c / 64 := toNat_ofNat_lt (by omega)
    have e1 : (UInt8.ofNat (0x80 + c % 64)).toNat = 0x80 + c % 64 := toNat_ofNat_lt (by omega)
    simp only [List.cons_append, List.nil_append, decodeUtf8, isCont, e0, e1]
    have hc : (0xC0 + c / 64 - 0xC0) * 64 + (0x80 + c % 64 - 0x80) = c := by omega
    rw [if_neg (by omega), if_neg (by omega), if_pos (by omega), hc, if_pos (by simp; omega)]
  · have e0 : (UInt8.ofNat (0xE0 + c / 4096)).toNat = 0xE0 + c / 4096 := toNat_ofNat_lt (by omega)
    have e1 : (UInt8.ofNat (0x80 + c / 64 % 64)).toNat = 0x80 + c / 64 % 64 :=
      toNat_ofNat_lt (by omega)
    have e2 : (UInt8.ofNat (0x80 + c % 64)).toNat = 0x80 + c % 64 := toNat_ofNat_lt (by omega)
    simp only [List.cons_append, List.nil_append, decodeUtf8, isCont, e0, e1, e2]
    have hc : (0xE0 + c / 4096 - 0xE0) * 4096 + (0x80 + c / 64 % 64 - 0x80) * 64
        + (0x80 + c % 64 - 0x80) = c := by omega
    rw [if_neg (by omega), if_neg (by omega), if_neg (by omega), if_pos (by omega), hc,
      if_pos (by simp; omega)]
  · have e0 : (UInt8.ofNat (0xF0 + c / 262144)).toNat = 0xF0 + c / 262144 :=
      toNat_ofNat_lt (by omega)
    have e1 : (UInt8.ofNat (0x80 + c / 4096 % 64)).toNat = 0x80 + c / 4096 % 64 :=
      toNat_ofNat_lt (by omega)
    have e2 : (UInt8.ofNat (0x80 + c / 64 % 64)).toNat = 0x80 + c / 64 % 64 :=
      toNat_ofNat_lt (by omega)
    have e3 : (UInt8.ofNat (0x80 + c % 64)).toNat = 0x80 + c % 64 := toNat_ofNat_lt (by omega)
    simp only [List.cons_append, List.nil_append, decodeUtf8, isCont, e0, e1, e2, e3]
    have hc : (0xF0 + c / 262144 - 0xF0) * 262144 + (0x80 + c / 4096 % 64 - 0x80) * 4096
        + (0x80 + c / 64 % 64 - 0x80) * 64 + (0x80 + c % 64 - 0x80) = c := by omega
    rw [if_neg (by omega), if_neg (by omega), if_neg (by omega), if_neg (by omega),
      if_pos (by omega), hc, if_pos (by simp; omega)]

/-- **UTF-8 round trip.** What `encode` produces, `decode` reads back. -/
theorem decodeUtf8_encodeUtf8 {s : PyStr} {bs : Bytes} (h : encodeUtf8 s = some bs) :
    decodeUtf8 bs = some s := by
  induction s generalizing bs with
  | nil =>
      simp only [encodeUtf8, Option.some.injEq] at h
      subst h
      rfl
  | cons c s ih =>
      obtain ⟨b, bs', hb, hs, rfl⟩ := encodeUtf8_cons.1 h
      rw [decodeUtf8_utf8Char hb, ih hs]
      rfl

theorem encodeUtf8_injective {s t : PyStr} {bs : Bytes} (hs : encodeUtf8 s = some bs)
    (ht : encodeUtf8 t = some bs) : s = t := by
  have h := (decodeUtf8_encodeUtf8 hs).symm.trans (decodeUtf8_encodeUtf8 ht)
  simpa using h

/-- Octets below `0x80` only come from the ASCII character they are: no multi-octet sequence holds
    a line break. -/
theorem ascii_mem_encodeUtf8 {s : PyStr} {bs : Bytes} (h : encodeUtf8 s = some bs) {b : UInt8}
    (hb : b ∈ bs) (hlt : b.toNat < 0x80) : b.toNat ∈ s := by
  induction s generalizing bs with
  | nil =>
      simp only [encodeUtf8, Option.some.injEq] at h
      subst h
      simp at hb
  | cons c s ih =>
      obtain ⟨b', bs', hb', hs, rfl⟩ := encodeUtf8_cons.1 h
      rcases List.mem_append.1 hb with hb | hb
      · refine List.mem_cons.2 (Or.inl ?_)
        rcases utf8Char_cases hb' with ⟨h1, rfl⟩ | ⟨h1, h2, rfl⟩ | ⟨h1, h2, h3, rfl⟩ |
          ⟨h1, h2, rfl⟩ <;>
          simp only [List.mem_cons, List.not_mem_nil, or_false] at hb
        · subst hb
          exact toNat_ofNat_lt (by omega)
        · rcases hb with rfl | rfl <;> rw [toNat_ofNat_lt (by omega)] at hlt <;> omega
        · rcases hb with rfl | rfl | rfl <;> rw [toNat_ofNat_lt (by omega)] at hlt <;> omega
        · rcases hb with rfl | rfl | rfl | rfl <;> rw [toNat_ofNat_lt (by omega)] at hlt <;> omega
      · exact List.mem_cons_of_mem _ (ih hs hb)

/-! ## Decoding from the front -/

/-- The octets of one character at the start of a byte string that decodes. -/
structure Leading (octets : Bytes) (c : Nat) : Prop where
  decodes : ∀ rest, decodeUtf8 (octets ++ rest) = (decodeUtf8 rest).map (c :: ·)
  octets : octets = [UInt8.ofNat c] ∧ c < 0x80 ∨ ∃ init b, octets = init ++ [b] ∧ 0x80 ≤ b.toNat

/-- Induction over a byte string that decodes, character by character. -/
theorem decodeUtf8_induct {P : Bytes → PyStr → Prop} (nil : P [] [])
    (cons : ∀ octets c rest s, Leading octets c → decodeUtf8 rest = some s → P rest s →
      P (octets ++ rest) (c :: s)) {bs : Bytes} {s : PyStr} (h : decodeUtf8 bs = some s) : P bs s := by
  have htail : ∀ {b : UInt8}, isCont b = true → 0x80 ≤ b.toNat := by
    intro b hb
    simp only [isCont, Bool.and_eq_true, decide_eq_true_eq] at hb
    exact hb.1
  fun_induction decodeUtf8 bs generalizing s with
  | case1 =>
      obtain rfl := Option.some.inj h
      exact nil
  | case2 b0 rest h0 ih =>
      obtain ⟨s, hs, rfl⟩ := Option.map_eq_some_iff.1 h
      refine cons [b0] _ rest s ⟨fun more => ?_, .inl ⟨by simp, h0⟩⟩ hs (ih hs)
      rw [List.singleton_append, decodeUtf8.eq_def]
      exact if_pos h0
  | case4 b0 h0 h1 h2 b1 rest c hcont =>
      rename_i ih
      obtain ⟨s, hs, rfl⟩ := Option.map_eq_some_iff.1 h
      refine cons [b0, b1] _ rest s ⟨fun more => ?_, .inr ⟨[b0], b1, rfl, htail hcont⟩⟩ hs (ih hs)
      rw [List.cons_append, List.singleton_append, decodeUtf8.eq_def]
      simp only [if_neg h0, if_neg h1, if_pos h2, if_pos hcont, c]
  | case7 b0 h0 h1 h2 h3 b1 b2 rest c hcont =>
      rename_i ih
      obtain ⟨s, hs, rfl⟩ := Option.map_eq_some_iff.1 h
      have hc := hcont
      simp only [Bool.and_eq_true] at hc
      refine cons [b0, b1, b2] _ rest s ⟨fun more => ?_,
        .inr ⟨[b0, b1], b2, rfl, htail hc.1.1.2⟩⟩ hs (ih hs)
      simp only [List.cons_append, List.nil_append, decodeUtf8, if_neg h0, if_neg h1, if_neg h2,
        if_pos h3]
      exact if_pos hcont
  | case10 b0 h0 h1 h2 h3 h4 b1 b2 b3 rest c hcont =>
      rename_i ih
      obtain ⟨s, hs, rfl⟩ := Option.map_eq_some_iff.1 h
      have hc := hcont
      simp only [Bool.and_eq_true] at hc
      refine cons [b0, b1, b2, b3] _ rest s ⟨fun more => ?_,
        .inr ⟨[b0, b1, b2], b3, rfl, htail hc.1.1.2⟩⟩ hs (ih hs)
      simp only [List.cons_append, List.nil_append, decodeUtf8, if_neg h0, if_neg h1, if_neg h2,
        if_neg h3, if_pos h4]
      exact if_pos hcont
  | _ => exact absurd h (by simp)

theorem decodeUtf8_append {a b : Bytes} {s t : PyStr} (ha : decodeUtf8 a = some s)
    (hb : decodeUtf8 b = some t) : decodeUtf8 (a ++ b) = some (s ++ t) := by
  refine decodeUtf8_induct (P := fun a s => decodeUtf8 (a ++ b) = some (s ++ t)) hb ?_ ha
  intro octets c rest s hlead _ ih
  rw [List.append_assoc, hlead.decodes, ih]
  rfl

/-- The last byte of a text in UTF-8 is ASCII only as a character of its own. -/
theorem decodeUtf8_getLast? {bs : Bytes} {s : PyStr} (h : decodeUtf8 bs = some s) {b : UInt8}
    (hb : b.toNat < 0x80) (hlast : bs.getLast? = some b) : s.getLast? = some b.toNat := by
  refine decodeUtf8_induct (P := fun bs s => bs.getLast? = some b → s.getLast? = some b.toNat)
    (fun h => absurd h (by simp)) ?_ h hlast
  intro octets c rest s hlead hrest ih hlast
  rcases List.eq_nil_or_concat rest with rfl | ⟨init, d, rfl⟩
  · obtain rfl := Option.some.inj hrest
    rw [List.append_nil] at hlast
    rcases hlead.octets with ⟨rfl, hc⟩ | ⟨init, d, rfl, hd⟩
    · have hbyte : UInt8.ofNat c = b := Option.some.inj hlast
      rw [← hbyte, toNat_ofNat_lt (by omega)]
      rfl
    · obtain rfl : d = b := by simpa using hlast
      omega
  · have hs := ih (by simpa using hlast)
    rw [List.getLast?_cons, hs, Option.getD_some]

end Elyra.Python
