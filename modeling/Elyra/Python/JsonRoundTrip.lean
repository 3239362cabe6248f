import Elyra.Python.JsonParse

set_option autoImplicit false

/-! # `loads` undoes `dumps`

Each lexer is shown to take exactly the text the printer wrote, given that what follows cannot be
read as a continuation (`Stops`). The recursion over a value is then one induction (`Json.inductOn`),
with an inner induction along the items or members of a container. The two results used elsewhere
are `loads_dumps` and `dumps_injective`. -/

namespace Elyra.Python

variable {F : Type}

/-! ## White space -/

theorem skipWs_append {ws : PyStr} (h : ws.all isWs = true) (s : PyStr) :
    skipWs (ws ++ s) = skipWs s := by
  induction ws with
  | nil => rfl
  | cons c ws ih =>
      simp only [List.all_cons, Bool.and_eq_true] at h
      simp only [List.cons_append, skipWs, if_pos h.1, ih h.2]

theorem skipWs_cons {c : Nat} (h : isWs c = false) (s : PyStr) : skipWs (c :: s) = c :: s := by
  simp [skipWs, h]

/-! ## Strings -/

theorem hexVal_hexDigit {n : Nat} (h : n < 16) : hexVal (hexDigit n) = some n := by
  unfold hexDigit hexVal
  split
  · rw [if_pos (by omega)]
    simp
  · rw [if_neg (by omega), if_pos (by omega)]
    simp

theorem hex4_control {c : Nat} (h : c < 32) :
    hex4 48 48 (hexDigit (c / 16)) (hexDigit (c % 16)) = some c := by
  have h0 : hexVal 48 = some 0 := rfl
  simp only [hex4, h0, hexVal_hexDigit (show c / 16 < 16 by omega),
    hexVal_hexDigit (show c % 16 < 16 by omega), Option.some.injEq]
  omega

theorem scanString_simple {e x : Nat} (he : simpleEscape e = some x) (hu : e ≠ 117) (s : PyStr) :
    scanString (92 :: e :: s) = (scanString s).map fun r => (x :: r.1, r.2) := by
  rw [scanString.eq_def]
  simp [hu, he]

/-- A `\u` escape of a code point outside the surrogates stands for that code point, whatever
    follows. -/
theorem scanString_unicode {a b c d hi : Nat} (h : hex4 a b c d = some hi) (hlt : hi < 0xD800)
    (s : PyStr) :
    scanString (92 :: 117 :: a :: b :: c :: d :: s)
      = (scanString s).map fun r => (hi :: r.1, r.2) := by
  rw [scanString.eq_def]
  simp only [h, reduceIte, Nat.reduceEqDiff]
  split
  · next a' b' c' d' s' =>
    cases hlo : hex4 a' b' c' d' with
    | none =>
        have : scanString (92 :: 117 :: a' :: b' :: c' :: d' :: s') = none := by
          rw [scanString.eq_def]
          simp [hlo]
        simp [this]
    | some lo =>
        simp only
        rw [if_neg (by omega)]
  · rfl

theorem scanString_escapeChar (c : Nat) (s : PyStr) :
    scanString (escapeChar c ++ s) = (scanString s).map fun r => (c :: r.1, r.2) := by
  unfold escapeChar
  by_cases h1 : c = 34
  · subst h1; exact scanString_simple rfl (by decide) s
  by_cases h2 : c = 92
  · subst h2; exact scanString_simple rfl (by decide) s
  by_cases h3 : c = 8
  · subst h3; exact scanString_simple rfl (by decide) s
  by_cases h4 : c = 12
  · subst h4; exact scanString_simple rfl (by decide) s
  by_cases h5 : c = 10
  · subst h5; exact scanString_simple rfl (by decide) s
  by_cases h6 : c = 13
  · subst h6; exact scanString_simple rfl (by decide) s
  by_cases h7 : c = 9
  · subst h7; exact scanString_simple rfl (by decide) s
  by_cases h8 : c < 32
  · rw [if_neg h1, if_neg h2, if_neg h3, if_neg h4, if_neg h5, if_neg h6, if_neg h7, if_pos h8]
    exact scanString_unicode (hex4_control h8) (by omega) s
  · rw [if_neg h1, if_neg h2, if_neg h3, if_neg h4, if_neg h5, if_neg h6, if_neg h7, if_neg h8,
      List.cons_append, List.nil_append, scanString.eq_def]
    simp [h1, h2, h8]

theorem scanString_quote (t rest : PyStr) :
    scanString (t.flatMap escapeChar ++ 34 :: rest) = some (t, rest) := by
  induction t with
  | nil =>
      rw [List.flatMap_nil, List.nil_append, scanString.eq_def]
      simp
  | cons c t ih =>
      rw [List.flatMap_cons, List.append_assoc, scanString_escapeChar, ih]
      rfl

/-! ## Numbers -/

/-- What may follow a number without being read as part of it. -/
def Stops (rest : PyStr) : Prop :=
  ∀ c r, rest = c :: r → isDigit c = false ∧ c ≠ 46 ∧ c ≠ 101 ∧ c ≠ 69

theorem stops_nil : Stops [] := by
  intro c r h
  exact absurd h (by simp)

theorem stops_cons {c : Nat} (h : isDigit c = false ∧ c ≠ 46 ∧ c ≠ 101 ∧ c ≠ 69) (r : PyStr) :
    Stops (c :: r) := by
  intro c' r' he
  simp only [List.cons.injEq] at he
  obtain ⟨rfl, rfl⟩ := he
  exact h

theorem stops_ws {c : Nat} (h : isWs c = true) (r : PyStr) : Stops (c :: r) := by
  refine stops_cons ?_ r
  simp only [isWs, Bool.or_eq_true, beq_iff_eq] at h
  rcases h with ((rfl | rfl) | rfl) | rfl <;> decide

/-- A run of white space before a stopping text is a stopping text. -/
theorem stops_append {ws r : PyStr} (h : ws.all isWs = true) (hr : Stops r) : Stops (ws ++ r) := by
  cases ws with
  | nil => exact hr
  | cons c ws =>
      simp only [List.all_cons, Bool.and_eq_true] at h
      exact stops_ws h.1 _

theorem takeDigits_append {ds : PyStr} (hds : ds.all isDigit = true) {rest : PyStr}
    (hr : ∀ c r, rest = c :: r → isDigit c = false) : takeDigits (ds ++ rest) = (ds, rest) := by
  induction ds with
  | nil =>
      cases rest with
      | nil => rfl
      | cons c r => simp [takeDigits, hr c r rfl]
  | cons d ds ih =>
      simp only [List.all_cons, Bool.and_eq_true] at hds
      simp [takeDigits, hds.1, ih hds.2]

theorem lexNat_append {lead : PyStr}
    (h : lead = [48] ∨ ∃ c ds, lead = c :: ds ∧ 49 ≤ c ∧ c ≤ 57 ∧ ds.all isDigit = true)
    {rest : PyStr} (hr : ∀ c r, rest = c :: r → isDigit c = false) :
    lexNat (lead ++ rest) = some (lead, rest) := by
  rcases h with rfl | ⟨c, ds, rfl, h1, h2, hds⟩
  · simp [lexNat]
  · have hc : c ≠ 48 := by omega
    simp [lexNat, hc, h1, h2, takeDigits_append hds hr]

theorem lexFrac_append {frac : PyStr}
    (h : frac = [] ∨ ∃ d ds, frac = 46 :: d :: ds ∧ (d :: ds).all isDigit = true) {rest : PyStr}
    (hr : ∀ c r, rest = c :: r → isDigit c = false ∧ c ≠ 46) :
    lexFrac (frac ++ rest) = (frac, rest) := by
  rcases h with rfl | ⟨d, ds, rfl, hds⟩
  · rw [List.nil_append]
    unfold lexFrac
    split
    · next s => exact absurd rfl (hr 46 s rfl).2
    · rfl
  · have ht := takeDigits_append hds (fun c r h => (hr c r h).1)
    rw [List.cons_append]
    simp only [lexFrac, ht]
    simp

theorem lexSign_append {sgn : PyStr} (h : sgn = [] ∨ sgn = [43] ∨ sgn = [45]) {d : Nat}
    (hd : isDigit d = true) (rest : PyStr) : lexSign (sgn ++ d :: rest) = (sgn, d :: rest) := by
  rcases h with rfl | rfl | rfl
  · have h43 : d ≠ 43 := by rintro rfl; exact absurd hd (by decide)
    have h45 : d ≠ 45 := by rintro rfl; exact absurd hd (by decide)
    simp [lexSign, h43, h45]
  · simp [lexSign]
  · simp [lexSign]

theorem lexExp_append {exp : PyStr}
    (h : exp = [] ∨ ∃ e sgn d ds, exp = e :: (sgn ++ d :: ds) ∧ (e = 101 ∨ e = 69) ∧
      (sgn = [] ∨ sgn = [43] ∨ sgn = [45]) ∧ (d :: ds).all isDigit = true) {rest : PyStr}
    (hr : Stops rest) : lexExp (exp ++ rest) = (exp, rest) := by
  rcases h with rfl | ⟨e, sgn, d, ds, rfl, he, hs, hds⟩
  · cases rest with
    | nil => rfl
    | cons c r =>
        obtain ⟨-, -, h1, h2⟩ := hr c r rfl
        simp [lexExp, h1, h2]
  · have ht := takeDigits_append hds (fun c r h => (hr c r h).1)
    have hd : isDigit d = true := by
      simp only [List.all_cons, Bool.and_eq_true] at hds
      exact hds.1
    have hs' := lexSign_append hs hd (ds ++ rest)
    have happ : sgn ++ d :: ds ++ rest = sgn ++ d :: (ds ++ rest) := by simp
    rw [List.cons_append, happ]
    simp only [List.cons_append] at ht
    simp only [lexExp, if_pos he, hs', ht]
    simp

/-- The number pattern takes exactly a token and stops before `rest`. -/
theorem lexUnsigned_append (neg : Bool) {lead frac exp rest : PyStr}
    (hl : lead = [48] ∨ ∃ c ds, lead = c :: ds ∧ 49 ≤ c ∧ c ≤ 57 ∧ ds.all isDigit = true)
    (hf : frac = [] ∨ ∃ d ds, frac = 46 :: d :: ds ∧ (d :: ds).all isDigit = true)
    (he : exp = [] ∨ ∃ e sgn d ds, exp = e :: (sgn ++ d :: ds) ∧ (e = 101 ∨ e = 69) ∧
      (sgn = [] ∨ sgn = [43] ∨ sgn = [45]) ∧ (d :: ds).all isDigit = true)
    (hr : Stops rest) :
    lexUnsigned neg (lead ++ (frac ++ (exp ++ rest))) = some ⟨neg, lead, frac, exp, rest⟩ := by
  have hexp : ∀ c r, exp ++ rest = c :: r → isDigit c = false ∧ c ≠ 46 := by
    intro c r h
    rcases he with rfl | ⟨e, sgn, d, ds, rfl, he, -, -⟩
    · exact ⟨(hr c r h).1, (hr c r h).2.1⟩
    · simp only [List.cons_append, List.cons.injEq] at h
      obtain ⟨rfl, -⟩ := h
      rcases he with rfl | rfl <;> decide
  have hfrac : ∀ c r, frac ++ (exp ++ rest) = c :: r → isDigit c = false := by
    intro c r h
    rcases hf with rfl | ⟨d, ds, rfl, -⟩
    · exact (hexp c r h).1
    · simp only [List.cons_append, List.cons.injEq] at h
      obtain ⟨rfl, -⟩ := h
      decide
  simp only [lexUnsigned, lexNat_append hl hfrac, lexFrac_append hf hexp, lexExp_append he hr]

theorem lexNumber_append (neg : Bool) {lead frac exp rest : PyStr}
    (hl : lead = [48] ∨ ∃ c ds, lead = c :: ds ∧ 49 ≤ c ∧ c ≤ 57 ∧ ds.all isDigit = true)
    (hf : frac = [] ∨ ∃ d ds, frac = 46 :: d :: ds ∧ (d :: ds).all isDigit = true)
    (he : exp = [] ∨ ∃ e sgn d ds, exp = e :: (sgn ++ d :: ds) ∧ (e = 101 ∨ e = 69) ∧
      (sgn = [] ∨ sgn = [43] ∨ sgn = [45]) ∧ (d :: ds).all isDigit = true)
    (hr : Stops rest) :
    lexNumber ((if neg then [45] else []) ++ lead ++ frac ++ exp ++ rest)
      = some ⟨neg, lead, frac, exp, rest⟩ := by
  have hlex := lexUnsigned_append neg hl hf he hr
  cases neg with
  | true =>
      simpa [lexNumber] using hlex
  | false =>
      obtain ⟨c, ds, rfl, hc⟩ : ∃ c ds, lead = c :: ds ∧ c ≠ 45 := by
        rcases hl with rfl | ⟨c, ds, rfl, h1, h2, -⟩
        · exact ⟨48, [], rfl, by decide⟩
        · exact ⟨c, ds, rfl, by omega⟩
      simpa [lexNumber, hc] using hlex

/-! ### Decimal text of an integer -/

theorem digitsVal_append (a : PyStr) (c : Nat) :
    digitsVal (a ++ [c]) = digitsVal a * 10 + (c - 48) := by
  simp [digitsVal]

theorem natDigits_spec (fuel n : Nat) (h : n < fuel) :
    digitsVal (natDigits fuel n) = n ∧ (natDigits fuel n).all isDigit = true ∧
    (natDigits fuel n = [48] ∨
      ∃ c ds, natDigits fuel n = c :: ds ∧ 49 ≤ c ∧ c ≤ 57 ∧ ds.all isDigit = true) := by
  induction fuel generalizing n with
  | zero => omega
  | succ fuel ih =>
      unfold natDigits
      split
      · next h10 =>
        refine ⟨by simp [digitsVal], by simp [isDigit]; omega, ?_⟩
        by_cases h0 : n = 0
        · exact Or.inl (by simp [h0])
        · exact Or.inr ⟨48 + n, [], rfl, by omega, by omega, rfl⟩
      · next h10 =>
        obtain ⟨hv, hd, hl⟩ := ih (n / 10) (by omega)
        have hlast : isDigit (48 + n % 10) = true := by simp [isDigit]; omega
        refine ⟨?_, by simp [hd, hlast], Or.inr ?_⟩
        · rw [digitsVal_append, hv]
          omega
        · rcases hl with hl | ⟨c, ds, hl, h1, h2, hds⟩
          · rw [hl] at hv
            have : n / 10 = 0 := by rw [← hv]; rfl
            omega
          · exact ⟨c, ds ++ [48 + n % 10], by simp [hl], h1, h2, by simp [hds, hlast]⟩

theorem digitsVal_natText (n : Nat) : digitsVal (natText n) = n :=
  (natDigits_spec (n + 1) n (by omega)).1

theorem natText_digits (n : Nat) : (natText n).all isDigit = true :=
  (natDigits_spec (n + 1) n (by omega)).2.1

theorem natText_lead (n : Nat) :
    natText n = [48] ∨
      ∃ c ds, natText n = c :: ds ∧ 49 ≤ c ∧ c ≤ 57 ∧ ds.all isDigit = true :=
  (natDigits_spec (n + 1) n (by omega)).2.2

theorem intText_eq (n : Int) :
    intText n = (if decide (n < 0) then [45] else []) ++ natText n.natAbs := by
  cases n with
  | ofNat n => simp [intText]
  | negSucc n =>
      have h : Int.negSucc n < 0 := Int.negSucc_lt_zero n
      simp [intText, h]

theorem lexNumber_intText (n : Int) {rest : PyStr} (hr : Stops rest) :
    lexNumber (intText n ++ rest) = some ⟨decide (n < 0), natText n.natAbs, [], [], rest⟩ := by
  have h := lexNumber_append (decide (n < 0)) (natText_lead n.natAbs) (Or.inl rfl)
    (Or.inl rfl) hr
  simpa [intText_eq] using h

/-! ## Well-formed containers -/

theorem wfList_iff {xs : List (Json F)} : wfList xs ↔ ∀ x ∈ xs, x.WF := by
  induction xs with
  | nil => simp [wfList]
  | cons y ys ih => simp [wfList, ih]

theorem wfMembers_iff {kvs : List (PyStr × Json F)} : wfMembers kvs ↔ ∀ kv ∈ kvs, kv.2.WF := by
  induction kvs with
  | nil => simp [wfMembers]
  | cons y ys ih => simp [wfMembers, ih]

/-! ## Scalars -/

section Values

variable [PyFloat F]

theorem stripText_append (p s : PyStr) : stripText p (p ++ s) = some s := by
  induction p with
  | nil => rfl
  | cons a p ih => simp [stripText, ih]

/-- A text that starts with another character than `a` does not start with a word in `a`. -/
theorem stripText_ne {a c : Nat} (h : a ≠ c) (p s : PyStr) :
    stripText (a :: p) (c :: s) = none := by
  simp [stripText, h]

/-- The first character of a number is a digit or the minus sign. -/
theorem parseScalar_number {c : Nat} {s : PyStr} {t : NumberToken}
    (hc : isDigit c = true ∨ c = 45) (h : lexNumber (c :: s) = some t) :
    parseScalar (F := F) (c :: s) = t.value.map (·, t.rest) := by
  have hne : ∀ a, isDigit a = false → a ≠ 45 → a ≠ c := by
    rintro a ha ha' rfl
    rcases hc with hc | hc
    · rw [hc] at ha
      exact absurd ha (by simp)
    · exact ha' hc
  have h1 : stripText (py "null") (c :: s) = none := stripText_ne (hne _ rfl (by decide)) _ s
  have h2 : stripText (py "true") (c :: s) = none := stripText_ne (hne _ rfl (by decide)) _ s
  have h3 : stripText (py "false") (c :: s) = none := stripText_ne (hne _ rfl (by decide)) _ s
  simp only [parseScalar, h1, h2, h3, h]

theorem natText_head (n : Nat) : ∃ c ds, natText n = c :: ds ∧ isDigit c = true := by
  rcases natText_lead n with h | ⟨c, ds, h, h1, h2, -⟩
  · exact ⟨48, [], h, rfl⟩
  · exact ⟨c, ds, h, by simp [isDigit]; omega⟩

theorem intText_head (n : Int) :
    ∃ c ds, intText n = c :: ds ∧ (isDigit c = true ∨ c = 45) := by
  obtain ⟨c, ds, h, hc⟩ := natText_head n.natAbs
  by_cases hn : n < 0
  · exact ⟨45, natText n.natAbs, by simp [intText_eq, hn], Or.inr rfl⟩
  · exact ⟨c, ds, by simp [intText_eq, hn, h], Or.inl hc⟩

theorem parseScalar_int {n : Int} (hn : (Json.int n : Json F).encodable true = true)
    {rest : PyStr} (hr : Stops rest) :
    parseScalar (intText n ++ rest) = .ok ((Json.int n : Json F), rest) := by
  obtain ⟨c, ds, hcs, hc⟩ := intText_head n
  have hlex := lexNumber_intText n hr
  rw [hcs, List.cons_append] at hlex ⊢
  rw [parseScalar_number hc hlex]
  have hle : ¬ maxStrDigits < (natText n.natAbs).length := by
    simp only [Json.encodable, decide_eq_true_eq] at hn
    omega
  have hval : (if decide (n < 0) = true then -(n.natAbs : Int) else n.natAbs) = n := by
    split
    · next h =>
      have := of_decide_eq_true h
      omega
    · next h =>
      have := of_decide_eq_false (Bool.eq_false_iff.2 h)
      omega
  simp only [NumberToken.value, and_self, if_true, if_neg hle, digitsVal_natText, hval, Except.map]

theorem floatToken_head {t : PyStr} (h : FloatToken t) :
    ∃ c ds, t = c :: ds ∧ (isDigit c = true ∨ c = 45) := by
  obtain ⟨neg, lead, frac, exp, rfl, hl, -⟩ := h.split
  cases neg with
  | true => exact ⟨45, lead ++ frac ++ exp, by simp, Or.inr rfl⟩
  | false =>
      rcases hl with rfl | ⟨c, ds, rfl, h1, h2, -⟩
      · exact ⟨48, frac ++ exp, by simp, Or.inl rfl⟩
      · exact ⟨c, ds ++ frac ++ exp, by simp, Or.inl (by simp [isDigit]; omega)⟩

theorem parseScalar_finite {f : F} (hf : PyFloat.finite f = true) {rest : PyStr}
    (hr : Stops rest) :
    parseScalar (PyFloat.repr f ++ rest) = .ok (Json.float f, rest) := by
  have htok := PyFloat.repr_token f hf
  obtain ⟨c, ds, hcs, hc⟩ := floatToken_head htok
  obtain ⟨neg, lead, frac, exp, heq, hl, hfr, he, hne⟩ := htok.split
  have hlex := lexNumber_append neg hl hfr he hr
  rw [← heq, hcs, List.cons_append] at hlex
  rw [hcs, List.cons_append, parseScalar_number hc hlex]
  simp only [NumberToken.value, if_neg hne, NumberToken.text, ← heq, Except.map,
    PyFloat.ofToken_repr f hf]

theorem parseScalar_float (f : F) {rest : PyStr} (hr : Stops rest) :
    parseScalar (floatText f ++ rest) = .ok (Json.float f, rest) := by
  unfold floatText
  cases hf : PyFloat.finite f with
  | true => exact parseScalar_finite hf hr
  | false =>
      simp only [Bool.false_eq_true, if_false]
      rcases PyFloat.special_cases f hf with ⟨rfl, h⟩ | ⟨rfl, h⟩ | ⟨rfl, h⟩ <;> rw [h] <;> rfl

theorem parseValue_scalar {c : Nat} {s : PyStr} {fuel : Nat}
    {r : Except LoadsError (Json F × PyStr)}
    (hc : c ≠ 34 ∧ c ≠ 91 ∧ c ≠ 123) (h : parseScalar (c :: s) = r) :
    parseValue (fuel + 1) (c :: s) = r := by
  rw [parseValue_cons, if_neg hc.1, if_neg hc.2.1, if_neg hc.2.2, h]

theorem floatText_head (f : F) :
    ∃ c ds, floatText f = c :: ds ∧ (isDigit c = true ∨ c = 45 ∨ c = 78 ∨ c = 73) := by
  unfold floatText
  cases hf : PyFloat.finite f with
  | true =>
      obtain ⟨c, ds, h, hc⟩ := floatToken_head (PyFloat.repr_token f hf)
      exact ⟨c, ds, h, by tauto⟩
  | false =>
      simp only [Bool.false_eq_true, if_false]
      rcases PyFloat.special_cases f hf with ⟨-, h⟩ | ⟨-, h⟩ | ⟨-, h⟩
      · exact ⟨78, _, h, by decide⟩
      · exact ⟨73, _, h, by decide⟩
      · exact ⟨45, _, h, by decide⟩

/-- No scalar starts like white space, a string, or a bracket. -/
theorem scalarHead_ne {c : Nat} (hc : isDigit c = true ∨ c = 45 ∨ c = 78 ∨ c = 73) :
    isWs c = false ∧ c ≠ 93 ∧ c ≠ 125 ∧ c ≠ 34 ∧ c ≠ 91 ∧ c ≠ 123 := by
  simp only [isDigit, Bool.and_eq_true, decide_eq_true_eq] at hc
  refine ⟨?_, by omega, by omega, by omega, by omega, by omega⟩
  simp only [isWs, Bool.or_eq_false_iff, beq_eq_false_iff_ne]
  omega

/-! ## Containers -/

/-- The first character of a value: never white space, never a closing bracket. -/
theorem print_head (st : Layout) (l : Nat) (v : Json F) :
    ∃ c s, v.print st l = c :: s ∧ isWs c = false ∧ c ≠ 93 ∧ c ≠ 125 := by
  cases v with
  | null => exact ⟨_, _, rfl, by decide, by decide, by decide⟩
  | bool b => cases b <;> exact ⟨_, _, rfl, by decide, by decide, by decide⟩
  | int n =>
      obtain ⟨c, ds, h, hc⟩ := intText_head n
      obtain ⟨h1, h2, h3, -⟩ := scalarHead_ne (c := c) (by tauto)
      exact ⟨c, ds, h, h1, h2, h3⟩
  | float f =>
      obtain ⟨c, ds, h, hc⟩ := floatText_head f
      obtain ⟨h1, h2, h3, -⟩ := scalarHead_ne hc
      exact ⟨c, ds, h, h1, h2, h3⟩
  | str s => exact ⟨34, _, rfl, by decide, by decide, by decide⟩
  | arr xs => cases xs <;> exact ⟨91, _, rfl, by decide, by decide, by decide⟩
  | obj kvs => cases kvs <;> exact ⟨123, _, rfl, by decide, by decide, by decide⟩

theorem skipWs_print (st : Layout) (l : Nat) (v : Json F) (s : PyStr) :
    skipWs (v.print st l ++ s) = v.print st l ++ s := by
  obtain ⟨c, t, h, hc, -⟩ := print_head st l v
  rw [h, List.cons_append, skipWs_cons hc]

theorem quote_append (k s : PyStr) :
    quote k ++ s = 34 :: (k.flatMap escapeChar ++ 34 :: s) := by
  simp [quote]

/-- What the round trip says of one value, at every depth and before every stopping text. -/
def ReadsBack (st : Layout) (v : Json F) : Prop :=
  ∀ (l fuel : Nat) (rest : PyStr), Stops rest → 2 * (v.print st l).length ≤ fuel →
    parseValue fuel (v.print st l ++ rest) = .ok (v, rest)

theorem stops_close (c : Nat) (h : c = 93 ∨ c = 125 ∨ c = 44) (r : PyStr) : Stops (c :: r) := by
  refine stops_cons ?_ r
  rcases h with rfl | rfl | rfl <;> decide

/-- What follows an item: a comma and more items, or the closing bracket. -/
theorem stops_printItems (st : Layout) (l l' : Nat) (xs : List (Json F)) (rest : PyStr) :
    Stops (printItems st l xs ++ (st.edge l' ++ 93 :: rest)) := by
  cases xs with
  | nil =>
      rw [printItems, List.nil_append]
      exact stops_append (st.edge_ws l') (stops_close 93 (Or.inl rfl) rest)
  | cons x xs => exact stops_close 44 (Or.inr (Or.inr rfl)) _

theorem stops_printMembers (st : Layout) (l l' : Nat) (kvs : List (PyStr × Json F))
    (rest : PyStr) : Stops (printMembers st l kvs ++ (st.edge l' ++ 125 :: rest)) := by
  cases kvs with
  | nil =>
      rw [printMembers, List.nil_append]
      exact stops_append (st.edge_ws l') (stops_close 125 (Or.inr (Or.inl rfl)) rest)
  | cons kv kvs => exact stops_close 44 (Or.inr (Or.inr rfl)) _

theorem parseItems_print (st : Layout) (l l' : Nat) :
    ∀ (xs : List (Json F)) (x : Json F) (fuel : Nat) (rest : PyStr),
      ReadsBack st x → (∀ y ∈ xs, ReadsBack st y) →
      2 * (x.print st l ++ printItems st l xs).length + 1 ≤ fuel →
      parseItems fuel (x.print st l ++ (printItems st l xs ++ (st.edge l' ++ 93 :: rest)))
        = .ok (x :: xs, rest) := by
  intro xs
  induction xs with
  | nil =>
      intro x fuel rest hx _ hfuel
      obtain ⟨fuel, rfl⟩ : ∃ f, fuel = f + 1 := ⟨fuel - 1, by omega⟩
      simp only [List.length_append] at hfuel
      have hval := hx l fuel _ (stops_printItems st l l' ([] : List (Json F)) rest) (by omega)
      have hskip : skipWs (printItems st l ([] : List (Json F)) ++ (st.edge l' ++ 93 :: rest))
          = 93 :: rest := by
        rw [printItems, List.nil_append, skipWs_append (st.edge_ws l'), skipWs_cons rfl]
      rw [parseItems_succ, hval]
      exact afterValue_closes hskip
  | cons y ys ih =>
      intro x fuel rest hx hys hfuel
      obtain ⟨fuel, rfl⟩ : ∃ f, fuel = f + 1 := ⟨fuel - 1, by omega⟩
      simp only [printItems, List.length_append, List.length_cons] at hfuel
      have hval := hx l fuel _ (stops_printItems st l l' (y :: ys) rest) (by omega)
      have hrest := ih y fuel rest (hys y (List.mem_cons_self ..))
        (fun z hz => hys z (List.mem_cons_of_mem _ hz))
        (by simp only [List.length_append]; omega)
      have hskip : skipWs (printItems st l (y :: ys) ++ (st.edge l' ++ 93 :: rest))
          = 44 :: (st.gap l ++ (y.print st l ++ (printItems st l ys ++ (st.edge l' ++ 93 :: rest)))) := by
        rw [printItems, List.cons_append, skipWs_cons rfl]
        simp
      rw [← skipWs_print st l y, ← skipWs_append (st.gap_ws l)] at hrest
      rw [parseItems_succ, hval, ok_bind]
      exact afterValue_goesOn (by decide) hskip hrest

theorem memberKey_quote (st : Layout) (k s : PyStr) :
    memberKey (quote k ++ 58 :: (st.colon ++ s)) = some (k, skipWs s) := by
  refine memberKey_iff.2 ⟨_, _, st.colon ++ s, quote_append k _, scanString_quote k _,
    skipWs_cons rfl _, ?_⟩
  rw [skipWs_append st.colon_ws]

theorem parseMembers_print (st : Layout) (l l' : Nat) :
    ∀ (kvs : List (PyStr × Json F)) (k : PyStr) (x : Json F) (fuel : Nat) (rest : PyStr),
      ReadsBack st x → (∀ kv ∈ kvs, ReadsBack st kv.2) →
      2 * (x.print st l ++ printMembers st l kvs).length + 1 ≤ fuel →
      parseMembers fuel (quote k ++ (58 :: (st.colon ++ (x.print st l ++
        (printMembers st l kvs ++ (st.edge l' ++ 125 :: rest))))))
        = .ok ((k, x) :: kvs, rest) := by
  intro kvs
  induction kvs with
  | nil =>
      intro k x fuel rest hx _ hfuel
      obtain ⟨fuel, rfl⟩ : ∃ f, fuel = f + 1 := ⟨fuel - 1, by omega⟩
      simp only [List.length_append] at hfuel
      have hval := hx l fuel _ (stops_printMembers st l l' ([] : List (PyStr × Json F)) rest) (by omega)
      have hskip : skipWs (printMembers st l ([] : List (PyStr × Json F)) ++
          (st.edge l' ++ 125 :: rest)) = 125 :: rest := by
        rw [printMembers, List.nil_append, skipWs_append (st.edge_ws l'), skipWs_cons rfl]
      rw [parseMembers_succ, memberKey_quote, skipWs_print, Option.elim_some, hval]
      exact afterValue_closes hskip
  | cons kv ys ih =>
      intro k x fuel rest hx hys hfuel
      obtain ⟨k', y⟩ := kv
      obtain ⟨fuel, rfl⟩ : ∃ f, fuel = f + 1 := ⟨fuel - 1, by omega⟩
      simp only [printMembers, List.length_append, List.length_cons] at hfuel
      have hval := hx l fuel _ (stops_printMembers st l l' ((k', y) :: ys) rest) (by omega)
      have hrest := ih k' y fuel rest (hys (k', y) (List.mem_cons_self ..))
        (fun z hz => hys z (List.mem_cons_of_mem _ hz))
        (by simp only [List.length_append]; omega)
      have hskip : skipWs (printMembers st l ((k', y) :: ys) ++ (st.edge l' ++ 125 :: rest))
          = 44 :: (st.gap l ++ (quote k' ++ (58 :: (st.colon ++ (y.print st l ++
            (printMembers st l ys ++ (st.edge l' ++ 125 :: rest))))))) := by
        rw [printMembers, List.cons_append, skipWs_cons rfl]
        simp
      have hquote : ∀ s, skipWs (quote k' ++ s) = quote k' ++ s := by
        intro s
        rw [quote_append, skipWs_cons rfl]
      rw [← hquote, ← skipWs_append (st.gap_ws l)] at hrest
      rw [parseMembers_succ, memberKey_quote, skipWs_print, Option.elim_some, hval, ok_bind]
      exact afterValue_goesOn (by decide) hskip hrest

theorem encodableList_iff {b : Bool} {xs : List (Json F)} :
    encodableList b xs = true ↔ ∀ x ∈ xs, x.encodable b = true := by
  induction xs with
  | nil => simp [encodableList]
  | cons y ys ih => simp [encodableList, ih]

theorem encodableMembers_iff {b : Bool} {kvs : List (PyStr × Json F)} :
    encodableMembers b kvs = true ↔ ∀ kv ∈ kvs, kv.2.encodable b = true := by
  induction kvs with
  | nil => simp [encodableMembers]
  | cons y ys ih => simp [encodableMembers, ih]

/-- **The printer and the scanner agree** on every value without repeated keys whose integers are
    within the digit limit. -/
theorem readsBack (st : Layout) (v : Json F) (hwf : v.WF) (henc : v.encodable true = true) :
    ReadsBack st v := by
  induction v using Json.inductOn with
  | null =>
      intro l fuel rest _ hfuel
      obtain ⟨fuel, rfl⟩ : ∃ f, fuel = f + 1 := ⟨fuel - 1, by simp [Json.print, py] at hfuel; omega⟩
      rfl
  | bool b =>
      intro l fuel rest _ hfuel
      obtain ⟨fuel, rfl⟩ : ∃ f, fuel = f + 1 :=
        ⟨fuel - 1, by cases b <;> simp [Json.print, py] at hfuel <;> omega⟩
      cases b <;> rfl
  | int n =>
      intro l fuel rest hr hfuel
      obtain ⟨c, ds, hcs, hc⟩ := intText_head n
      have hp : (Json.int n : Json F).print st l = c :: ds := hcs
      rw [hp, List.length_cons] at hfuel
      obtain ⟨fuel, rfl⟩ : ∃ f, fuel = f + 1 := ⟨fuel - 1, by omega⟩
      have hval := parseScalar_int henc hr
      rw [hcs, List.cons_append] at hval
      rw [hp, List.cons_append]
      exact parseValue_scalar (scalarHead_ne (by tauto)).2.2.2 hval
  | float f =>
      intro l fuel rest hr hfuel
      obtain ⟨c, ds, hcs, hc⟩ := floatText_head f
      have hp : (Json.float f).print st l = c :: ds := hcs
      rw [hp, List.length_cons] at hfuel
      obtain ⟨fuel, rfl⟩ : ∃ f, fuel = f + 1 := ⟨fuel - 1, by omega⟩
      have hval := parseScalar_float f hr
      rw [hcs, List.cons_append] at hval
      rw [hp, List.cons_append]
      exact parseValue_scalar (scalarHead_ne hc).2.2.2 hval
  | str s =>
      intro l fuel rest _ hfuel
      obtain ⟨fuel, rfl⟩ : ∃ f, fuel = f + 1 := ⟨fuel - 1, by simp [Json.print, quote] at hfuel; omega⟩
      rw [Json.print, quote_append, parseValue_cons, if_pos rfl, scanString_quote]
      rfl
  | arr xs ih =>
      intro l fuel rest _ hfuel
      obtain ⟨fuel, rfl⟩ : ∃ f, fuel = f + 1 := by
        refine ⟨fuel - 1, ?_⟩
        cases xs <;> simp [Json.print] at hfuel <;> omega
      have hxs : ∀ x ∈ xs, ReadsBack st x := fun x hx =>
        ih x hx (wfList_iff.1 hwf x hx) (encodableList_iff.1 henc x hx)
      cases xs with
      | nil => rfl
      | cons x xs =>
          simp only [Json.print, List.length_cons, List.length_append] at hfuel
          have hitems := parseItems_print st (l + 1) l xs x fuel rest (hxs x (List.mem_cons_self ..))
            (fun y hy => hxs y (List.mem_cons_of_mem _ hy))
            (by simp only [List.length_append]; omega)
          obtain ⟨c, t, hcs, hws, h93, -⟩ := print_head st (l + 1) x
          have htext : (Json.arr (x :: xs)).print st l ++ rest = 91 :: (st.edge (l + 1) ++
              (x.print st (l + 1) ++ (printItems st (l + 1) xs ++ (st.edge l ++ 93 :: rest)))) := by
            simp [Json.print]
          rw [htext]
          rw [parseValue_cons, if_neg (by decide), if_pos rfl]
          refine container_of_more ?_ ?_
          · rw [skipWs_append (st.edge_ws _), skipWs_print, hcs]
            exact fun he => h93 (Option.some.inj he)
          · rw [skipWs_append (st.edge_ws _), skipWs_print]
            exact hitems
  | obj kvs ih =>
      intro l fuel rest _ hfuel
      obtain ⟨fuel, rfl⟩ : ∃ f, fuel = f + 1 := by
        refine ⟨fuel - 1, ?_⟩
        cases kvs <;> simp [Json.print] at hfuel <;> omega
      have hkvs : ∀ kv ∈ kvs, ReadsBack st kv.2 := fun kv hkv =>
        ih kv hkv (wfMembers_iff.1 hwf.2 kv hkv) (encodableMembers_iff.1 henc kv hkv)
      cases kvs with
      | nil => rfl
      | cons kv kvs =>
          obtain ⟨k, x⟩ := kv
          simp only [Json.print, List.length_cons, List.length_append] at hfuel
          have hmem := parseMembers_print st (l + 1) l kvs k x fuel rest
            (hkvs (k, x) (List.mem_cons_self ..))
            (fun y hy => hkvs y (List.mem_cons_of_mem _ hy))
            (by simp only [List.length_append]; omega)
          have htext : (Json.obj ((k, x) :: kvs)).print st l ++ rest = 123 :: (st.edge (l + 1) ++
              (quote k ++ (58 :: (st.colon ++ (x.print st (l + 1) ++
                (printMembers st (l + 1) kvs ++ (st.edge l ++ 125 :: rest))))))) := by
            simp [Json.print]
          have hskip : ∀ s, skipWs (st.edge (l + 1) ++ (quote k ++ s)) = quote k ++ s := by
            intro s
            rw [skipWs_append (st.edge_ws _), quote_append, skipWs_cons rfl]
          rw [htext, parseValue_cons, if_neg (by decide), if_neg (by decide), if_pos rfl,
            ← dictOf_of_nodup hwf.1]
          refine container_of_more ?_ ?_
          · rw [hskip, quote_append]
            exact fun he => nomatch he
          · rw [hskip]
            exact hmem

/-- `allow_nan=True` only accepts more. -/
theorem encodable_mono (v : Json F) (h : v.encodable false = true) : v.encodable true = true := by
  induction v using Json.inductOn with
  | null => rfl
  | bool b => rfl
  | int n => exact h
  | float f => simp [Json.encodable]
  | str s => rfl
  | arr xs ih =>
      exact encodableList_iff.2 (fun x hx => ih x hx (encodableList_iff.1 h x hx))
  | obj kvs ih =>
      exact encodableMembers_iff.2 (fun x hx => ih x hx (encodableMembers_iff.1 h x hx))

theorem encodable_of_dumps {st : Layout} {b : Bool} {v : Json F} {t : PyStr}
    (h : dumps st b v = some t) : v.encodable true = true ∧ t = v.print st 0 := by
  unfold dumps at h
  split at h
  · next he =>
    refine ⟨?_, by simpa using h.symm⟩
    cases b with
    | true => exact he
    | false => exact encodable_mono v he
  · exact absurd h (by simp)

/-- **Round trip.** `json.loads` reads back what `json.dumps` wrote, and passes over white space after
    it. -/
theorem loads_dumps_append {st : Layout} {b : Bool} {v : Json F} {t ws : PyStr} (hwf : v.WF)
    (h : dumps st b v = some t) (hws : ws.all isWs = true) : loads (t ++ ws) = .ok v := by
  obtain ⟨henc, rfl⟩ := encodable_of_dumps h
  have hskip := skipWs_print st 0 v ws
  have hstops : Stops ws := by
    have := stops_append hws stops_nil
    rwa [List.append_nil] at this
  have hval := readsBack st v hwf henc 0 (2 * (v.print st 0 ++ ws).length + 2) ws hstops
    (by simp only [List.length_append]; omega)
  have hrest : skipWs ws = [] := by
    have := skipWs_append hws []
    rwa [List.append_nil] at this
  simp only [loads, hskip, hval, hrest, if_true]

theorem loads_dumps {st : Layout} {b : Bool} {v : Json F} {t : PyStr} (hwf : v.WF)
    (h : dumps st b v = some t) : loads t = .ok v := by
  have := loads_dumps_append hwf h (show ([] : PyStr).all isWs = true from rfl)
  rwa [List.append_nil] at this

/-- Printing is injective: two values with one text are equal. -/
theorem dumps_injective {st : Layout} {b : Bool} {v w : Json F} {t : PyStr} (hv : v.WF)
    (hw : w.WF) (h₁ : dumps st b v = some t) (h₂ : dumps st b w = some t) : v = w := by
  have h := (loads_dumps hv h₁).symm.trans (loads_dumps hw h₂)
  simpa using h

end Values

end Elyra.Python
