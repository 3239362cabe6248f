import Elyra.Python.JsonRoundTrip

set_option autoImplicit false

/-! # No object text ends another one

A reader that looks at the end of a file may start in the middle of a record. What it then sees is
never taken for an object: `loads` accepts no object text that is a proper end of another one
(`loads_obj_suffix`). The argument follows the quotes and brackets of an accepted text. Started
outside a string at a depth, `Lex` comes back to that depth; a reader that starts inside an object
ends below its own depth, and one that starts inside a string takes strings for code and code for
strings, so it ends inside a string. The same holds for the encoded bytes, as a continuation octet
starts no character (`decodeUtf8_suffix`). -/

namespace Elyra.Python

variable {F : Type}

/-! ## Quotes and brackets -/

/-- Where a reader of JSON text is. `broken` is a backslash outside a string. -/
inductive Lex where
  | outside (depth : Int)
  | inside (depth : Int)
  | escaped (depth : Int)
  | broken

def Lex.step : Lex → Nat → Lex
  | .outside d, c =>
      if c = 34 then .inside d
      else if c = 91 ∨ c = 123 then .outside (d + 1)
      else if c = 93 ∨ c = 125 then .outside (d - 1)
      else if c = 92 then .broken
      else .outside d
  | .inside d, c => if c = 34 then .outside d else if c = 92 then .escaped d else .inside d
  | .escaped d, _ => .inside d
  | .broken, _ => .broken

def Lex.run (x : Lex) (s : PyStr) : Lex := s.foldl Lex.step x

/-- Not broken, and at least this deep. -/
def Lex.AtLeast (d : Int) : Lex → Prop
  | .outside e => d ≤ e
  | .inside e => d ≤ e
  | .escaped e => d ≤ e
  | .broken => False

/-- Reading the text leads from one place to the other, and before its end to no place above `d`. -/
inductive Reads (d : Int) : Lex → PyStr → Lex → Prop
  | nil (x : Lex) : Reads d x [] x
  | cons {x y : Lex} {c : Nat} {s : PyStr} (hx : x.AtLeast d) (hs : Reads d (x.step c) s y) :
      Reads d x (c :: s) y

theorem Reads.append {d : Int} {x y z : Lex} {s t : PyStr} (hs : Reads d x s y)
    (ht : Reads d y t z) : Reads d x (s ++ t) z := by
  induction hs with
  | nil x => exact ht
  | cons hx _ ih => exact .cons hx (ih ht)

theorem Reads.mono {d e : Int} {x y : Lex} {s : PyStr} (h : Reads d x s y) (he : e ≤ d) :
    Reads e x s y := by
  induction h with
  | nil x => exact .nil x
  | @cons x y c s hx _ ih =>
      refine .cons ?_ ih
      cases x with
      | broken => exact hx
      | outside k => exact he.trans hx
      | inside k => exact he.trans hx
      | escaped k => exact he.trans hx

theorem Reads.run_eq {d : Int} {x y : Lex} {s : PyStr} (h : Reads d x s y) : x.run s = y := by
  induction h with
  | nil x => rfl
  | cons _ _ ih => exact ih

/-- The place in the middle of a text. -/
theorem Reads.split {d : Int} {x y : Lex} {s t : PyStr} (h : Reads d x (s ++ t) y) :
    Reads d (x.run s) t y := by
  induction s generalizing x with
  | nil => exact h
  | cons c s ih =>
      cases h with
      | cons _ hs => exact ih hs

theorem Reads.head {d : Int} {x y : Lex} {s : PyStr} (h : Reads d x s y) (hs : s ≠ []) :
    x.AtLeast d := by
  cases h with
  | nil => exact absurd rfl hs
  | cons hx _ => exact hx

/-- No quote, bracket or backslash. -/
def plain (c : Nat) : Bool := c != 34 && c != 91 && c != 123 && c != 93 && c != 125 && c != 92

theorem Reads.plain {s : PyStr} (h : s.all plain = true) (d : Int) :
    Reads d (.outside d) s (.outside d) := by
  induction s with
  | nil => exact .nil _
  | cons c s ih =>
      simp only [List.all_cons, Bool.and_eq_true] at h
      have hc := h.1
      simp only [Elyra.Python.plain, Bool.and_eq_true, bne_iff_ne] at hc
      refine .cons (x := .outside d) (le_refl d) ?_
      have hstep : (Lex.outside d).step c = .outside d := by simp [Lex.step, hc]
      rw [hstep]
      exact ih h.2

/-! ## What the scanner consumes -/

theorem skipWs_split (s : PyStr) : ∃ ws, s = ws ++ skipWs s ∧ ws.all isWs = true := by
  induction s with
  | nil => exact ⟨[], rfl, rfl⟩
  | cons c s ih =>
      unfold skipWs
      split
      · next hc =>
        obtain ⟨ws, hs, hws⟩ := ih
        exact ⟨c :: ws, by rw [List.cons_append, ← hs], by simp [hc, hws]⟩
      · exact ⟨[], rfl, rfl⟩

theorem all_plain_of_ws {ws : PyStr} (h : ws.all isWs = true) : ws.all plain = true := by
  refine List.all_eq_true.2 fun c hc => ?_
  have := List.all_eq_true.1 h c hc
  simp only [isWs, Bool.or_eq_true, beq_iff_eq] at this
  rcases this with ((rfl | rfl) | rfl) | rfl <;> decide

theorem Reads.ws (s : PyStr) (d : Int) :
    ∃ ws, s = ws ++ skipWs s ∧ Reads d (.outside d) ws (.outside d) := by
  obtain ⟨ws, hs, hws⟩ := skipWs_split s
  exact ⟨ws, hs, .plain (all_plain_of_ws hws) d⟩

section String

variable {d : Int} {u : PyStr}

/-- One character of a string that is neither a quote nor a backslash. -/
theorem Reads.char {c : Nat} (h34 : c ≠ 34) (h92 : c ≠ 92)
    (hu : Reads d (.inside d) u (.outside d)) : Reads d (.inside d) (c :: u) (.outside d) := by
  refine .cons (x := .inside d) (le_refl d) ?_
  simpa [Lex.step, h34, h92] using hu

/-- A backslash and the character after it. -/
theorem Reads.escape (e : Nat) (hu : Reads d (.inside d) u (.outside d)) :
    Reads d (.inside d) (92 :: e :: u) (.outside d) :=
  .cons (x := .inside d) (le_refl d) (.cons (x := .escaped d) (le_refl d) hu)

theorem hexVal_ne {x v : Nat} (h : hexVal x = some v) : x ≠ 34 ∧ x ≠ 92 := by
  unfold hexVal at h
  split at h
  · omega
  · split at h
    · omega
    · split at h
      · omega
      · exact absurd h (by simp)

theorem Reads.unicode {a b c e hi : Nat} (h : hex4 a b c e = some hi)
    (hu : Reads d (.inside d) u (.outside d)) :
    Reads d (.inside d) (92 :: 117 :: a :: b :: c :: e :: u) (.outside d) := by
  unfold hex4 at h
  split at h
  · next ha hb hc he =>
    have h₄ := Reads.char (hexVal_ne he).1 (hexVal_ne he).2 hu
    have h₃ := Reads.char (hexVal_ne hc).1 (hexVal_ne hc).2 h₄
    have h₂ := Reads.char (hexVal_ne hb).1 (hexVal_ne hb).2 h₃
    have h₁ := Reads.char (hexVal_ne ha).1 (hexVal_ne ha).2 h₂
    exact h₁.escape 117
  · exact absurd h (by simp)

theorem map_rest {o : Option (PyStr × PyStr)} {f : PyStr → PyStr} {t r : PyStr}
    (h : (o.map fun p => (f p.1, p.2)) = some (t, r)) : ∃ t', o = some (t', r) := by
  obtain ⟨p, hp, hf⟩ := Option.map_eq_some_iff.1 h
  simp only [Prod.mk.injEq] at hf
  exact ⟨p.1, by rw [hp, ← hf.2]⟩

end String

/-- The text up to the closing quote. -/
theorem Reads.scanString {s t r : PyStr} (h : scanString s = some (t, r)) (d : Int) :
    ∃ u, s = u ++ r ∧ Reads d (.inside d) u (.outside d) := by
  fun_induction Elyra.Python.scanString s generalizing t with
  | case1 => exact absurd h (by simp)
  | case2 s =>
      simp only [Option.some.injEq, Prod.mk.injEq] at h
      exact ⟨[34], by simp [h.2], .cons (x := .inside d) (le_refl d) (.nil _)⟩
  | case3 => exact absurd h (by simp)
  | case4 => exact absurd h (by simp)
  | case5 => exact absurd h (by simp)
  | case6 a b c e hi hhi a' b' c' e' s lo hlo _ _ ih =>
      obtain ⟨t', ht⟩ := map_rest h
      obtain ⟨u, rfl, hu⟩ := ih ht
      exact ⟨_, rfl, (hu.unicode hlo).unicode hhi⟩
  | case7 a b c e hi hhi a' b' c' e' s lo _ _ _ ih =>
      obtain ⟨t', ht⟩ := map_rest h
      obtain ⟨u, hs, hu⟩ := ih ht
      exact ⟨92 :: 117 :: a :: b :: c :: e :: u, by simp [hs], hu.unicode hhi⟩
  | case8 a b c e hi hhi s _ _ ih =>
      obtain ⟨t', ht⟩ := map_rest h
      obtain ⟨u, rfl, hu⟩ := ih ht
      exact ⟨_, rfl, hu.unicode hhi⟩
  | case9 => exact absurd h (by simp)
  | case10 => exact absurd h (by simp)
  | case11 e s _ x _ _ ih =>
      obtain ⟨t', ht⟩ := map_rest h
      obtain ⟨u, rfl, hu⟩ := ih ht
      exact ⟨_, rfl, hu.escape e⟩
  | case12 => exact absurd h (by simp)
  | case13 c s h34 h92 _ ih =>
      obtain ⟨t', ht⟩ := map_rest h
      obtain ⟨u, rfl, hu⟩ := ih ht
      exact ⟨_, rfl, hu.char h34 h92⟩

theorem stripText_split {p s r : PyStr} (h : stripText p s = some r) : s = p ++ r := by
  fun_induction stripText p s with
  | case1 s => simpa using h
  | case2 => exact absurd h (by simp)
  | case3 a p s ih => rw [ih h, List.cons_append]
  | case4 => exact absurd h (by simp)

theorem takeDigits_split (s : PyStr) :
    s = (takeDigits s).1 ++ (takeDigits s).2 ∧ (takeDigits s).1.all isDigit = true := by
  induction s with
  | nil => exact ⟨rfl, rfl⟩
  | cons c s ih =>
      unfold takeDigits
      split
      · next hc => exact ⟨by rw [List.cons_append, ← ih.1], by simp [hc, ih.2]⟩
      · exact ⟨rfl, rfl⟩

theorem plain_of_digit {c : Nat} (h : isDigit c = true) : plain c = true := by
  simp only [isDigit, Bool.and_eq_true, decide_eq_true_eq] at h
  simp only [plain, Bool.and_eq_true, bne_iff_ne]
  omega

theorem takeDigits_plain (s : PyStr) : (takeDigits s).1.all plain = true :=
  List.all_eq_true.2 fun c hc =>
    plain_of_digit (List.all_eq_true.1 (takeDigits_split s).2 c hc)

theorem lexNat_split {s t r : PyStr} (h : lexNat s = some (t, r)) :
    s = t ++ r ∧ t.all plain = true := by
  unfold lexNat at h
  split at h
  · exact absurd h (by simp)
  · next c s =>
    split at h
    · next hc =>
      simp only [Option.some.injEq, Prod.mk.injEq] at h
      exact ⟨by simp [← h.1, ← h.2, hc], by rw [← h.1]; decide⟩
    · split at h
      · next hc =>
        simp only [Option.some.injEq, Prod.mk.injEq] at h
        have hplain : plain c = true := plain_of_digit (by simp [isDigit]; omega)
        refine ⟨?_, by rw [← h.1, List.all_cons, hplain, takeDigits_plain]; rfl⟩
        rw [← h.1, ← h.2, List.cons_append, ← (takeDigits_split s).1]
      · exact absurd h (by simp)

theorem lexFrac_split (s : PyStr) :
    s = (lexFrac s).1 ++ (lexFrac s).2 ∧ (lexFrac s).1.all plain = true := by
  unfold lexFrac
  split
  · next s =>
    split
    · exact ⟨rfl, rfl⟩
    · refine ⟨by rw [List.cons_append, ← (takeDigits_split s).1], ?_⟩
      rw [List.all_cons, takeDigits_plain]
      decide
  · exact ⟨rfl, rfl⟩

theorem lexSign_split (s : PyStr) :
    s = (lexSign s).1 ++ (lexSign s).2 ∧ (lexSign s).1.all plain = true := by
  unfold lexSign
  split
  · exact ⟨rfl, rfl⟩
  · next c s =>
    split
    · next hc =>
      refine ⟨rfl, ?_⟩
      simp only [List.all_cons, List.all_nil, Bool.and_true]
      rcases hc with rfl | rfl <;> decide
    · exact ⟨rfl, rfl⟩

theorem lexExp_split (s : PyStr) :
    s = (lexExp s).1 ++ (lexExp s).2 ∧ (lexExp s).1.all plain = true := by
  unfold lexExp
  split
  · exact ⟨rfl, rfl⟩
  · next c s =>
    split
    · next hc =>
      dsimp only
      split
      · exact ⟨rfl, rfl⟩
      · obtain ⟨hs, hsgn⟩ := lexSign_split s
        have hplain : plain c = true := by
          rcases hc with rfl | rfl <;> decide
        refine ⟨?_, by simp [hplain, hsgn, takeDigits_plain]⟩
        rw [List.cons_append, List.append_assoc, ← (takeDigits_split (lexSign s).2).1, ← hs]
    · exact ⟨rfl, rfl⟩

/-- A number token is the text it was read from. -/
theorem lexNumber_split {s : PyStr} {t : NumberToken} (h : lexNumber s = some t) :
    s = t.text ++ t.rest ∧ t.text.all plain = true := by
  have hunsigned : ∀ {neg : Bool} {s : PyStr}, lexUnsigned neg s = some t →
      t.text = (if neg then [45] else []) ++ (t.lead ++ t.frac ++ t.exp) ∧
        s = t.lead ++ t.frac ++ t.exp ++ t.rest ∧
        (t.lead ++ t.frac ++ t.exp).all plain = true := by
    intro neg s h
    unfold lexUnsigned at h
    split at h
    · exact absurd h (by simp)
    · next lead r hlead =>
      obtain ⟨rfl, hplain⟩ := lexNat_split hlead
      obtain ⟨hfrac, hfplain⟩ := lexFrac_split r
      obtain ⟨hexp, heplain⟩ := lexExp_split (lexFrac r).2
      simp only [Option.some.injEq] at h
      subst h
      refine ⟨by simp [NumberToken.text], ?_, by simp [hplain, hfplain, heplain]⟩
      simp only [List.append_assoc]
      rw [← hexp, ← hfrac]
  unfold lexNumber at h
  split at h
  · exact absurd h (by simp)
  · next c s =>
    split at h
    · next hc =>
      obtain ⟨htext, hs, hplain⟩ := hunsigned h
      rw [htext, hs, hc]
      refine ⟨by simp, ?_⟩
      rw [List.all_append, hplain]
      decide
    · obtain ⟨htext, hs, hplain⟩ := hunsigned h
      rw [htext, hs]
      exact ⟨by simp, by simpa using hplain⟩

section Values

variable [PyFloat F]

/-- A constant or a number. -/
theorem parseScalar_split {s r : PyStr} {v : Json F} (h : parseScalar s = .ok (v, r)) :
    ∃ u, s = u ++ r ∧ u.all plain = true := by
  have hword : ∀ {word r' : PyStr}, stripText word s = some r' → word.all plain = true → r' = r →
      ∃ u, s = u ++ r ∧ u.all plain = true := by
    intro word r' hstrip hplain hr
    exact ⟨word, by rw [stripText_split hstrip, hr], hplain⟩
  unfold parseScalar at h
  split at h
  · simp only [Except.ok.injEq, Prod.mk.injEq] at h
    exact hword ‹stripText (py "null") s = some _› (by decide) h.2
  · simp only [Except.ok.injEq, Prod.mk.injEq] at h
    exact hword ‹stripText (py "true") s = some _› (by decide) h.2
  · simp only [Except.ok.injEq, Prod.mk.injEq] at h
    exact hword ‹stripText (py "false") s = some _› (by decide) h.2
  · split at h
    · next t ht =>
      obtain ⟨hs, hplain⟩ := lexNumber_split ht
      cases hv : t.value (F := F) with
      | error e =>
          rw [hv] at h
          exact absurd h (by simp [Except.map])
      | ok x =>
          rw [hv] at h
          simp only [Except.map, Except.ok.injEq, Prod.mk.injEq] at h
          exact ⟨t.text, by rw [← h.2]; exact hs, hplain⟩
    · split at h
      · simp only [Except.ok.injEq, Prod.mk.injEq] at h
        exact hword ‹stripText (py "NaN") s = some _› (by decide) h.2
      · simp only [Except.ok.injEq, Prod.mk.injEq] at h
        exact hword ‹stripText (py "Infinity") s = some _› (by decide) h.2
      · simp only [Except.ok.injEq, Prod.mk.injEq] at h
        exact hword ‹stripText (py "-Infinity") s = some _› (by decide) h.2
      · exact absurd h (by simp)

/-- A container after its opening bracket, one level further in. -/
theorem Reads.close {d : Int} {ws u : PyStr} {c : Nat} (hc : c = 93 ∨ c = 125)
    (hws : Reads (d + 1) (.outside (d + 1)) ws (.outside (d + 1))) (hu : u = ws ++ [c]) :
    Reads (d + 1) (.outside (d + 1)) u (.outside d) := by
  subst hu
  refine hws.append (.cons (x := .outside (d + 1)) (le_refl _) ?_)
  have hstep : (Lex.outside (d + 1)).step c = .outside d := by
    rcases hc with rfl | rfl <;> simp [Lex.step]
  rw [hstep]
  exact .nil _

/-- What the three parsers consume. -/
structure Consumed (F : Type) [PyFloat F] (fuel : Nat) : Prop where
  value : ∀ {s r : PyStr} {v : Json F}, parseValue fuel s = .ok (v, r) →
    ∀ d, ∃ u, s = u ++ r ∧ Reads d (.outside d) u (.outside d)
  items : ∀ {s r : PyStr} {xs : List (Json F)}, parseItems fuel s = .ok (xs, r) →
    ∀ d, ∃ u, s = u ++ r ∧ Reads (d + 1) (.outside (d + 1)) u (.outside d)
  members : ∀ {s r : PyStr} {kvs : List (PyStr × Json F)}, parseMembers fuel s = .ok (kvs, r) →
    ∀ d, ∃ u, s = u ++ r ∧ Reads (d + 1) (.outside (d + 1)) u (.outside d)

section Containers

variable {ε α β : Type} {close : Nat} {more : PyStr → Except ε (List α × PyStr)} {s r : PyStr}

/-- A container after its opening character, when what is in it is consumed down to its end. -/
theorem container_consumed {build : List α → β} {v : β} (hclose : close = 93 ∨ close = 125) {d : Int}
    (hmore : ∀ {t : PyStr} {xs : List α}, more t = .ok (xs, r) →
      ∃ u, t = u ++ r ∧ Reads (d + 1) (.outside (d + 1)) u (.outside d))
    (h : container close build s more = .ok (v, r)) :
    ∃ u, s = u ++ r ∧ Reads (d + 1) (.outside (d + 1)) u (.outside d) := by
  obtain ⟨ws, hs, hws⟩ := Reads.ws s (d + 1)
  rcases container_ok h with ⟨hr, -⟩ | ⟨xs, hxs, -⟩
  · refine ⟨ws ++ [close], ?_, hws.close hclose rfl⟩
    rw [List.append_assoc, List.singleton_append, ← hr, ← hs]
  · obtain ⟨u, hu, hreads⟩ := hmore hxs
    exact ⟨ws ++ u, by rw [List.append_assoc, ← hu, ← hs], hws.append hreads⟩

/-- A container after one of its values. -/
theorem afterValue_consumed {fail : ε} {x : α} {xs : List α} (hclose : close = 93 ∨ close = 125)
    {d : Int}
    (hmore : ∀ {t : PyStr} {xs : List α}, more t = .ok (xs, r) →
      ∃ u, t = u ++ r ∧ Reads (d + 1) (.outside (d + 1)) u (.outside d))
    (h : afterValue fail close x s more = .ok (xs, r)) :
    ∃ u, s = u ++ r ∧ Reads (d + 1) (.outside (d + 1)) u (.outside d) := by
  obtain ⟨ws, hs, hws⟩ := Reads.ws s (d + 1)
  rcases afterValue_ok h with ⟨hr, -⟩ | ⟨t, ys, hnext, hys, -⟩
  · rw [sequel_closes_iff] at hr
    refine ⟨ws ++ [close], ?_, hws.close hclose rfl⟩
    rw [List.append_assoc, List.singleton_append, ← hr, ← hs]
  · obtain ⟨r', hr, rfl⟩ := (sequel_goesOn_iff (by omega)).1 hnext
    obtain ⟨ws', hr', hws'⟩ := Reads.ws r' (d + 1)
    obtain ⟨u, hu, hreads⟩ := hmore hys
    have hcomma : Reads (d + 1) (.outside (d + 1)) [44] (.outside (d + 1)) := .plain (by decide) _
    refine ⟨ws ++ ([44] ++ (ws' ++ u)), ?_, hws.append (hcomma.append (hws'.append hreads))⟩
    rw [hs, hr, hr', hu]
    simp

/-- The key of a member, up to its value. -/
theorem memberKey_consumed {k t : PyStr} (h : memberKey s = some (k, t)) (d : Int) :
    ∃ u, s = u ++ t ∧ Reads d (.outside d) u (.outside d) := by
  obtain ⟨q, r₀, r₁, rfl, hscan, hcolon, rfl⟩ := memberKey_iff.1 h
  obtain ⟨u, rfl, hu⟩ := Reads.scanString hscan d
  obtain ⟨ws, hr₀, hws⟩ := Reads.ws r₀ d
  obtain ⟨ws', hr₁, hws'⟩ := Reads.ws r₁ d
  have hkey : Reads d (.outside d) (34 :: u) (.outside d) := .cons (x := .outside d) (le_refl d) hu
  have hsep : Reads d (.outside d) [58] (.outside d) := .plain (by decide) _
  have hsplit : r₀ = ws ++ ([58] ++ (ws' ++ skipWs r₁)) := by
    rw [← hr₁, List.singleton_append, ← hcolon, ← hr₀]
  refine ⟨(34 :: u) ++ (ws ++ ([58] ++ ws')), ?_, hkey.append (hws.append (hsep.append hws'))⟩
  rw [List.append_assoc, List.append_assoc, List.append_assoc, ← hsplit, List.cons_append]

end Containers

/-- An object after its opening brace. -/
theorem object_consumed {fuel : Nat} (ih : Consumed F fuel) {s r : PyStr} {v : Json F}
    (h : parseValue (fuel + 1) (123 :: s) = .ok (v, r)) (d : Int) :
    ∃ u, s = u ++ r ∧ Reads (d + 1) (.outside (d + 1)) u (.outside d) := by
  rw [parseValue_cons, if_neg (by decide), if_neg (by decide), if_pos rfl] at h
  exact container_consumed (.inr rfl) (fun hkvs => ih.members hkvs d) h

/-- An opening bracket and what is one level further in. -/
theorem Reads.opening {d : Int} {c : Nat} {u : PyStr} {y : Lex} (hc : c = 91 ∨ c = 123)
    (hu : Reads (d + 1) (.outside (d + 1)) u y) : Reads d (.outside d) (c :: u) y := by
  refine .cons (x := .outside d) (le_refl d) ?_
  have hstep : (Lex.outside d).step c = .outside (d + 1) := by
    rcases hc with rfl | rfl <;> simp [Lex.step]
  rw [hstep]
  exact hu.mono (by omega)

theorem consumed (fuel : Nat) : Consumed F fuel := by
  induction fuel with
  | zero => exact ⟨fun h => (nomatch h), fun h => (nomatch h), fun h => (nomatch h)⟩
  | succ fuel ih =>
      refine ⟨fun {s r v} h d => ?_, fun {s r xs} h d => ?_, fun {s r kvs} h d => ?_⟩
      · cases s with
        | nil => cases h
        | cons c s =>
            by_cases h123 : c = 123
            · subst h123
              obtain ⟨u, rfl, hu⟩ := object_consumed ih h d
              exact ⟨123 :: u, rfl, hu.opening (.inr rfl)⟩
            · rw [parseValue_cons, if_neg h123] at h
              split_ifs at h with h34 h91
              · subst h34
                cases hscan : scanString s with
                | none =>
                    rw [hscan] at h
                    cases h
                | some p =>
                    rw [hscan] at h
                    cases h
                    obtain ⟨u, rfl, hu⟩ := Reads.scanString hscan d
                    exact ⟨34 :: u, rfl, .cons (x := .outside d) (le_refl d) hu⟩
              · subst h91
                obtain ⟨u, rfl, hu⟩ :=
                  container_consumed (d := d) (.inl rfl) (fun hxs => ih.items hxs d) h
                exact ⟨91 :: u, rfl, hu.opening (.inl rfl)⟩
              · obtain ⟨u, hu, hplain⟩ := parseScalar_split h
                exact ⟨u, hu, .plain hplain d⟩
      · rw [parseItems_succ] at h
        obtain ⟨⟨v, r₁⟩, hv, h⟩ := bind_ok.1 h
        obtain ⟨u₁, hu₁, hvalue⟩ := ih.value hv (d + 1)
        obtain ⟨u₂, hu₂, hreads⟩ :=
          afterValue_consumed (s := r₁) (.inl rfl) (fun hxs => ih.items hxs d) h
        exact ⟨u₁ ++ u₂, by rw [List.append_assoc, ← hu₂, ← hu₁], hvalue.append hreads⟩
      · rw [parseMembers_succ] at h
        cases hkey : memberKey s with
        | none =>
            rw [hkey] at h
            cases h
        | some m =>
            rw [hkey] at h
            obtain ⟨⟨v, r₁⟩, hv, h⟩ := bind_ok.1 h
            obtain ⟨u₀, hu₀, hmember⟩ := memberKey_consumed (k := m.1) (t := m.2) hkey (d + 1)
            obtain ⟨u₁, hu₁, hvalue⟩ := ih.value hv (d + 1)
            obtain ⟨u₂, hu₂, hreads⟩ :=
              afterValue_consumed (s := r₁) (.inr rfl) (fun hkvs => ih.members hkvs d) h
            refine ⟨u₀ ++ (u₁ ++ u₂), ?_, hmember.append (hvalue.append hreads)⟩
            rw [hu₀, hu₁, hu₂]
            simp

/-! ## Ends of object texts -/

theorem parseScalar_ne_obj {s r : PyStr} {kvs : List (PyStr × Json F)} :
    parseScalar s ≠ .ok (.obj kvs, r) := by
  intro h
  unfold parseScalar at h
  split at h
  · exact absurd h (by simp)
  · exact absurd h (by simp)
  · exact absurd h (by simp)
  · split at h
    · next t _ =>
      unfold NumberToken.value at h
      split at h
      · split at h <;> exact absurd h (by simp [Except.map])
      · exact absurd h (by simp [Except.map])
    · split at h <;> exact absurd h (by simp)

/-- Only an opening brace starts an object. -/
theorem parseValue_obj {fuel : Nat} {s r : PyStr} {kvs : List (PyStr × Json F)}
    (h : parseValue fuel s = .ok (.obj kvs, r)) :
    ∃ u, s = 123 :: (u ++ r) ∧ Reads 1 (.outside 1) u (.outside 0) := by
  cases fuel with
  | zero => exact absurd h (by simp [parseValue])
  | succ fuel =>
      cases s with
      | nil => exact absurd h (by simp [parseValue])
      | cons c s =>
          by_cases h123 : c = 123
          · subst h123
            obtain ⟨u, rfl, hu⟩ := object_consumed (consumed fuel) h 0
            exact ⟨u, rfl, hu⟩
          · exfalso
            rw [parseValue_cons, if_neg h123] at h
            split_ifs at h
            · cases hk : scanString s with
              | none =>
                  rw [hk] at h
                  cases h
              | some p =>
                  rw [hk] at h
                  cases h
            · rcases container_ok h with ⟨-, hv⟩ | ⟨xs, -, hv⟩
              · cases hv
              · cases hv
            · exact parseScalar_ne_obj h

/-- An object text: after white space, an opening brace and all that belongs to it. -/
theorem loads_obj {s : PyStr} {kvs : List (PyStr × Json F)} (h : loads s = .ok (.obj kvs)) :
    ∃ ws u ws', s = ws ++ 123 :: (u ++ ws') ∧ ws.all isWs = true ∧ ws'.all isWs = true ∧
      Reads 1 (.outside 1) u (.outside 0) := by
  unfold loads at h
  split at h
  · exact absurd h (by simp)
  · next v r hv =>
    split at h
    · next hr =>
      simp only [Except.ok.injEq] at h
      subst h
      obtain ⟨ws, hs, hws⟩ := skipWs_split s
      obtain ⟨u, hu, hreads⟩ := parseValue_obj hv
      obtain ⟨ws', hr', hws'⟩ := skipWs_split r
      rw [hr, List.append_nil] at hr'
      subst hr'
      exact ⟨ws, u, r, by rw [← hu, ← hs], hws, hws', hreads⟩
    · exact absurd h (by simp)

/-- A whole object text is balanced. -/
theorem loads_obj_run {s : PyStr} {kvs : List (PyStr × Json F)} (h : loads s = .ok (.obj kvs)) :
    (Lex.outside 0).run s = .outside 0 := by
  obtain ⟨ws, u, ws', rfl, hws, hws', hu⟩ := loads_obj h
  have hobject := Reads.opening (d := 0) (c := 123) (.inr rfl) (by simpa using hu)
  have hall := (Reads.plain (all_plain_of_ws hws) 0).append
    (hobject.append (Reads.plain (all_plain_of_ws hws') 0))
  exact hall.run_eq

end Values

/-! ## Two readers of one text -/

theorem Lex.run_broken (s : PyStr) : Lex.broken.run s = .broken := by
  induction s with
  | nil => rfl
  | cons c s ih => exact ih

/-- One reader is inside a string exactly when the other is outside. -/
inductive Swapped : Lex → Lex → Prop
  | inside (d e : Int) : Swapped (.inside d) (.outside e)
  | outside (d e : Int) : Swapped (.outside d) (.inside e)

theorem Lex.step_outside (d : Int) {c : Nat} (h : c ≠ 34) :
    (Lex.outside d).step c = .broken ∨
      c ≠ 92 ∧ ∃ e, (Lex.outside d).step c = .outside e := by
  simp only [Lex.step, if_neg h]
  split
  · next hc => exact .inr ⟨by omega, _, rfl⟩
  · split
    · next hc => exact .inr ⟨by omega, _, rfl⟩
    · split
      · exact .inl rfl
      · next hc => exact .inr ⟨hc, _, rfl⟩

/-- Swapped readers stay swapped, until one of them breaks. -/
theorem Swapped.step {x y : Lex} (h : Swapped x y) (c : Nat) :
    Swapped (x.step c) (y.step c) ∨ x.step c = .broken ∨ y.step c = .broken := by
  by_cases h34 : c = 34
  · subst h34
    cases h with
    | inside d e => exact .inl (.outside d e)
    | outside d e => exact .inl (.inside d e)
  · have hinside : ∀ d, c ≠ 92 → (Lex.inside d).step c = .inside d := by
      intro d h92
      simp [Lex.step, h34, h92]
    cases h with
    | inside d e =>
        rcases Lex.step_outside e h34 with hb | ⟨h92, e', he⟩
        · exact .inr (.inr hb)
        · rw [hinside d h92, he]
          exact .inl (.inside d e')
    | outside d e =>
        rcases Lex.step_outside d h34 with hb | ⟨h92, d', hd⟩
        · exact .inr (.inl hb)
        · rw [hinside e h92, hd]
          exact .inl (.outside d' e)

/-- Two readers that have the strings swapped do not both end outside. -/
theorem Swapped.not_both {x y : Lex} (h : Swapped x y) (s : PyStr) (d e : Int) :
    ¬ (x.run s = .outside d ∧ y.run s = .outside e) := by
  induction s generalizing x y with
  | nil =>
      rintro ⟨hx, hy⟩
      simp only [Lex.run, List.foldl_nil] at hx hy
      subst hx
      subst hy
      cases h
  | cons c s ih =>
      rintro ⟨hx, hy⟩
      have hx' : (x.step c).run s = .outside d := hx
      have hy' : (y.step c).run s = .outside e := hy
      rcases h.step c with h | h | h
      · exact ih h ⟨hx', hy'⟩
      · rw [h, Lex.run_broken] at hx'
        exact absurd hx' (by simp)
      · rw [h, Lex.run_broken] at hy'
        exact absurd hy' (by simp)

/-- The same place, `k` levels further in. -/
def Lex.shift (k : Int) : Lex → Lex
  | .outside d => .outside (d + k)
  | .inside d => .inside (d + k)
  | .escaped d => .escaped (d + k)
  | .broken => .broken

theorem Lex.run_shift (k : Int) (x : Lex) (s : PyStr) : (x.shift k).run s = (x.run s).shift k := by
  induction s generalizing x with
  | nil => rfl
  | cons c s ih =>
      have hstep : (x.shift k).step c = (x.step c).shift k := by
        cases x with
        | outside d =>
            simp only [Lex.shift, Lex.step]
            split
            · rfl
            · split
              · simp only [Lex.outside.injEq]
                omega
              · split
                · simp only [Lex.outside.injEq]
                  omega
                · split <;> rfl
        | inside d =>
            simp only [Lex.shift, Lex.step]
            split
            · rfl
            · split <;> rfl
        | escaped d => rfl
        | broken => rfl
      show ((x.shift k).step c).run s = _
      rw [hstep]
      exact ih (x.step c)

section Values

variable [PyFloat F]

/-- The place of the outer reader where a proper end of an object text starts. -/
theorem loads_obj_middle {p s : PyStr} {kvs : List (PyStr × Json F)}
    (h : loads (123 :: (p ++ s)) = .ok (.obj kvs)) (hs : s.all isWs = false) :
    ((Lex.outside 1).run p).AtLeast 1 ∧ ((Lex.outside 1).run p).run s = .outside 0 := by
  obtain ⟨ws, u, ws', hsplit, hws, hws', hu⟩ := loads_obj h
  have hnil : ws = [] := by
    cases ws with
    | nil => rfl
    | cons c ws =>
        simp only [List.cons_append, List.cons.injEq] at hsplit
        simp only [List.all_cons, ← hsplit.1, Bool.and_eq_true] at hws
        exact absurd hws.1 (by decide)
  subst hnil
  simp only [List.nil_append, List.cons.injEq, true_and] at hsplit
  rcases List.append_eq_append_iff.1 hsplit with ⟨m, rfl, rfl⟩ | ⟨m, rfl, rfl⟩
  · have hm : m ≠ [] := by
      rintro rfl
      rw [List.nil_append, hws'] at hs
      exact absurd hs (by simp)
    have hrest := hu.split
    refine ⟨hrest.head hm, ?_⟩
    have hwhole : ((Lex.outside 1).run p).run (m ++ ws') = ((Lex.outside 0).run ws') := by
      rw [Lex.run, List.foldl_append]
      exact congrArg (fun x => Lex.run x ws') hrest.run_eq
    rw [hwhole]
    exact (Reads.plain (all_plain_of_ws hws') 0).run_eq
  · rw [List.all_append, Bool.and_eq_true] at hws'
    rw [hws'.2] at hs
    exact absurd hs (by simp)

/-- **No object text is a proper end of another one** that starts with its brace. -/
theorem loads_obj_suffix {p s : PyStr} {kvs kvs' : List (PyStr × Json F)}
    (h : loads (123 :: (p ++ s)) = .ok (.obj kvs)) : loads s ≠ .ok (.obj kvs') := by
  intro hs
  have hinner := loads_obj_run hs
  obtain ⟨ws, u, ws', hsplit, hws, -, -⟩ := loads_obj hs
  have hblank : s.all isWs = false := by
    rw [hsplit]
    simp [isWs]
  obtain ⟨hdeep, houter⟩ := loads_obj_middle h hblank
  generalize (Lex.outside 1).run p = x at hdeep houter
  cases x with
  | broken => exact hdeep
  | outside d =>
      -- the inner reader ends `d` levels too high
      have hshift := Lex.run_shift d (.outside 0) s
      rw [hinner] at hshift
      simp only [Lex.shift, Int.zero_add] at hshift
      rw [houter] at hshift
      simp only [Lex.outside.injEq] at hshift
      have : (1 : Int) ≤ d := hdeep
      omega
  | inside d => exact (Swapped.inside d 0).not_both s 0 0 ⟨houter, hinner⟩
  | escaped d =>
      -- the first character is white space or the brace, so the two are swapped after it
      obtain ⟨c, rest, rfl, e, he⟩ : ∃ c rest, s = c :: rest ∧
          ∃ e, (Lex.outside 0).step c = .outside e := by
        cases ws with
        | nil => exact ⟨123, _, hsplit, 1, by simp [Lex.step]⟩
        | cons c ws =>
            refine ⟨c, _, hsplit, 0, ?_⟩
            have hplain := List.all_eq_true.1 (all_plain_of_ws hws) c (by simp)
            simp only [plain, Bool.and_eq_true, bne_iff_ne] at hplain
            simp [Lex.step, hplain]
      refine (Swapped.inside d e).not_both rest 0 0 ⟨houter, ?_⟩
      rw [← he]
      exact hinner

end Values

/-! ## Ends of encoded texts -/

/-- The octets of a character after the first are continuation octets. -/
theorem utf8Char_tail {c : Nat} {b a rest : Bytes} {x : UInt8} (h : utf8Char c = some b)
    (hb : b = a ++ x :: rest) (ha : a ≠ []) : 0x80 ≤ x.toNat ∧ x.toNat < 0xC0 := by
  have hcont : ∀ {n : Nat}, 0x80 ≤ n → n < 0xC0 →
      0x80 ≤ (UInt8.ofNat n).toNat ∧ (UInt8.ofNat n).toNat < 0xC0 := by
    intro n h1 h2
    rw [toNat_ofNat_lt (by omega)]
    exact ⟨h1, h2⟩
  have hmem : ∀ {y : UInt8} {ys : Bytes}, a ++ x :: rest = y :: ys → x ∈ ys := by
    intro y ys heq
    obtain ⟨z, a, rfl⟩ := List.exists_cons_of_ne_nil ha
    simp only [List.cons_append, List.cons.injEq] at heq
    rw [← heq.2]
    simp
  rcases utf8Char_cases h with ⟨h1, rfl⟩ | ⟨h1, h2, rfl⟩ | ⟨h1, h2, -, rfl⟩ | ⟨h1, h2, rfl⟩
  · exact absurd (hmem hb.symm) (by simp)
  · have hx := hmem hb.symm
    simp only [List.mem_cons, List.not_mem_nil, or_false] at hx
    subst hx
    exact hcont (by omega) (by omega)
  · have hx := hmem hb.symm
    simp only [List.mem_cons, List.not_mem_nil, or_false] at hx
    rcases hx with rfl | rfl <;> exact hcont (by omega) (by omega)
  · have hx := hmem hb.symm
    simp only [List.mem_cons, List.not_mem_nil, or_false] at hx
    rcases hx with rfl | rfl | rfl <;> exact hcont (by omega) (by omega)

theorem decodeUtf8_cont {x : UInt8} (rest : Bytes) (h : 0x80 ≤ x.toNat) (h' : x.toNat < 0xC0) :
    decodeUtf8 (x :: rest) = none := by
  rw [decodeUtf8.eq_def]
  simp only
  rw [if_neg (by omega), if_pos (by omega)]

/-- An end of an encoded text that decodes is the encoding of an end of the text. -/
theorem decodeUtf8_suffix {text t : PyStr} {a b : Bytes} (h : encodeUtf8 text = some (a ++ b))
    (hb : decodeUtf8 b = some t) : ∃ p, text = p ++ t ∧ encodeUtf8 p = some a := by
  induction text generalizing a with
  | nil =>
      simp only [encodeUtf8, Option.some.injEq] at h
      obtain ⟨rfl, rfl⟩ := List.append_eq_nil_iff.1 h.symm
      simp only [decodeUtf8, Option.some.injEq] at hb
      exact ⟨[], by simp [← hb], rfl⟩
  | cons c text ih =>
      cases a with
      | nil =>
          have hwhole := decodeUtf8_encodeUtf8 h
          rw [List.nil_append, hb, Option.some.injEq] at hwhole
          exact ⟨[], by simp [hwhole], rfl⟩
      | cons x a =>
          obtain ⟨o, bs, ho, hbs, heq⟩ := encodeUtf8_cons.1 h
          rcases List.append_eq_append_iff.1 heq with ⟨m, hm, hmb⟩ | ⟨m, hm, hmb⟩
          · -- the cut is within the first character, or right after it
            cases m with
            | nil =>
                rw [List.nil_append] at hmb
                subst hmb
                obtain ⟨p, hp, henc⟩ := ih (a := []) hbs
                refine ⟨c :: p, by rw [hp, List.cons_append], ?_⟩
                rw [List.append_nil] at hm
                exact encodeUtf8_cons.2 ⟨o, [], ho, henc, by rw [hm, List.append_nil]⟩
            | cons y m =>
                obtain ⟨hlo, hhi⟩ := utf8Char_tail ho hm (by simp)
                rw [hmb, List.cons_append, decodeUtf8_cont _ hlo hhi] at hb
                exact absurd hb (by simp)
          · subst hmb
            obtain ⟨p, hp, henc⟩ := ih hbs
            exact ⟨c :: p, by rw [hp, List.cons_append],
              encodeUtf8_cons.2 ⟨o, m, ho, henc, hm⟩⟩

end Elyra.Python
