import Elyra.Python.JsonCanon
import Elyra.Python.JsonSuffix

set_option autoImplicit false

/-! # What the JSON reader accepts and the writers refuse

`json.loads` lets in values that `json.dumps` or `str.encode` refuse to put out again: non-finite
floats under `allow_nan=False`, and strings with a lone surrogate. Integers are no such case, since
both directions have the same digit limit (`loads_encodable`). The last part bounds the length of a
compact text, for the callers that limit the size of a record. -/

namespace Elyra.Python

variable {F : Type}

/-! ## Floats and strings -/

mutual

/-- The floats of a value. -/
def Json.floats : Json F → List F
  | .float f => [f]
  | .arr xs => floatsList xs
  | .obj kvs => floatsMembers kvs
  | _ => []

def floatsList : List (Json F) → List F
  | [] => []
  | x :: xs => x.floats ++ floatsList xs

def floatsMembers : List (PyStr × Json F) → List F
  | [] => []
  | (_, v) :: kvs => v.floats ++ floatsMembers kvs

end

theorem floatsList_eq (xs : List (Json F)) : floatsList xs = xs.flatMap Json.floats := by
  induction xs with
  | nil => rfl
  | cons x xs ih => simp only [floatsList, ih, List.flatMap_cons]

theorem floatsMembers_eq (kvs : List (PyStr × Json F)) :
    floatsMembers kvs = kvs.flatMap (fun kv => kv.2.floats) := by
  induction kvs with
  | nil => rfl
  | cons kv kvs ih => simp only [floatsMembers, ih, List.flatMap_cons]

/-- The text has a UTF-8 form: no lone surrogate in it. -/
def Utf8 (s : PyStr) : Prop := ∀ c ∈ s, (utf8Char c).isSome = true

instance (s : PyStr) : Decidable (Utf8 s) :=
  inferInstanceAs (Decidable (∀ c ∈ s, (utf8Char c).isSome = true))

theorem utf8_append {s t : PyStr} : Utf8 (s ++ t) ↔ Utf8 s ∧ Utf8 t := by
  simp only [Utf8, List.forall_mem_append]

/-- Every string of the value has a UTF-8 form. -/
def Json.Utf8 (v : Json F) : Prop := ∀ s ∈ v.strings, Elyra.Python.Utf8 s

@[simp] theorem utf8_null : (Json.null : Json F).Utf8 := List.forall_mem_nil _

@[simp] theorem utf8_bool (b : Bool) : (Json.bool b : Json F).Utf8 := List.forall_mem_nil _

@[simp] theorem utf8_int (n : Int) : (Json.int n : Json F).Utf8 := List.forall_mem_nil _

@[simp] theorem utf8_float (f : F) : (Json.float f).Utf8 := List.forall_mem_nil _

@[simp] theorem utf8_str (s : PyStr) : (Json.str s : Json F).Utf8 ↔ Utf8 s := by
  simp [Json.Utf8, Json.strings]

@[simp] theorem utf8_obj_nil : (Json.obj [] : Json F).Utf8 := List.forall_mem_nil _

@[simp] theorem utf8_obj_cons (k : PyStr) (v : Json F) (kvs : List (PyStr × Json F)) :
    (Json.obj ((k, v) :: kvs)).Utf8 ↔ Utf8 k ∧ v.Utf8 ∧ (Json.obj kvs).Utf8 := by
  simp only [Json.Utf8, Json.strings, stringsMembers, List.forall_mem_cons, List.forall_mem_append]

section Codec

variable [PyFloat F]

/-- `allow_nan=False` refuses a value for its non-finite floats alone. -/
theorem encodable_false_iff (v : Json F) :
    v.encodable false = true ↔
      v.encodable true = true ∧ ∀ f ∈ v.floats, PyFloat.finite f = true := by
  induction v using Json.inductOn with
  | null | bool | str => simp [Json.encodable, Json.floats]
  | int n => simp [Json.encodable, Json.floats]
  | float f => simp [Json.encodable, Json.floats]
  | arr xs ih =>
      simp only [Json.encodable, encodableList_iff, Json.floats, floatsList_eq, List.mem_flatMap]
      constructor
      · intro h
        refine ⟨fun x hx => ((ih x hx).1 (h x hx)).1, ?_⟩
        rintro f ⟨x, hx, hf⟩
        exact ((ih x hx).1 (h x hx)).2 f hf
      · rintro ⟨hint, hfloat⟩ x hx
        exact (ih x hx).2 ⟨hint x hx, fun f hf => hfloat f ⟨x, hx, hf⟩⟩
  | obj kvs ih =>
      simp only [Json.encodable, encodableMembers_iff, Json.floats, floatsMembers_eq,
        List.mem_flatMap]
      constructor
      · intro h
        refine ⟨fun x hx => ((ih x hx).1 (h x hx)).1, ?_⟩
        rintro f ⟨x, hx, hf⟩
        exact ((ih x hx).1 (h x hx)).2 f hf
      · rintro ⟨hint, hfloat⟩ x hx
        exact (ih x hx).2 ⟨hint x hx, fun f hf => hfloat f ⟨x, hx, hf⟩⟩

/-- The text of a value has a UTF-8 form when its strings have one, and only then. -/
theorem encodeUtf8_print_iff (st : Layout) (v : Json F) (l : Nat) :
    (∃ bs, encodeUtf8 (v.print st l) = some bs) ↔ v.Utf8 := by
  constructor
  · rintro ⟨bs, hbs⟩ s hs c hc
    by_cases hlt : c < 128
    · simp [utf8Char, hlt]
    · exact utf8Char_of_encodeUtf8 hbs c (mem_print_of_mem_strings st v hc (by omega) l hs)
  · exact encodeUtf8_print st v l

/-! ## Integers -/

theorem digitsVal_lt {s : PyStr} (h : s.all isDigit = true) : digitsVal s < 10 ^ s.length := by
  induction s using List.reverseRecOn with
  | nil => decide
  | append_singleton s c ih =>
      simp only [List.all_append, List.all_cons, List.all_nil, Bool.and_true, Bool.and_eq_true,
        isDigit, decide_eq_true_eq] at h
      have hs := ih h.1
      rw [digitsVal_append, List.length_append, List.length_singleton, pow_succ]
      omega

theorem natDigits_length (fuel n k : Nat) (hk : 0 < k) (hn : n < 10 ^ k) :
    (natDigits fuel n).length ≤ k := by
  induction fuel generalizing n k with
  | zero => simp [natDigits]
  | succ fuel ih =>
      unfold natDigits
      split
      · simp only [List.length_singleton]
        omega
      · next h10 =>
        obtain ⟨j, rfl⟩ : ∃ j, k = j + 1 := ⟨k - 1, by omega⟩
        have hj : 0 < j := by
          by_contra h0
          have : j = 0 := by omega
          subst this
          simp at hn
          omega
        have hdiv : n / 10 < 10 ^ j := by
          rw [pow_succ] at hn
          omega
        simpa using ih (n / 10) j hj hdiv

/-- A number has at most `k` digits when it is below `10 ^ k`, and only then. -/
theorem natText_length_le {n k : Nat} (hk : 0 < k) : (natText n).length ≤ k ↔ n < 10 ^ k := by
  constructor
  · intro h
    calc n = digitsVal (natText n) := (digitsVal_natText n).symm
      _ < 10 ^ (natText n).length := digitsVal_lt (natText_digits n)
      _ ≤ 10 ^ k := Nat.pow_le_pow_right (by decide) h
  · exact natDigits_length (n + 1) n k hk

theorem lexNat_digits {s lead r : PyStr} (h : lexNat s = some (lead, r)) :
    lead ≠ [] ∧ lead.all isDigit = true := by
  cases s with
  | nil => exact absurd h (by simp [lexNat])
  | cons c s =>
      simp only [lexNat] at h
      split at h
      · simp only [Option.some.injEq, Prod.mk.injEq] at h
        rw [← h.1]
        exact ⟨by simp, rfl⟩
      · split at h
        · next hc =>
          simp only [Option.some.injEq, Prod.mk.injEq] at h
          rw [← h.1]
          refine ⟨by simp, ?_⟩
          rw [List.all_cons, (takeDigits_split s).2, Bool.and_true]
          simp only [isDigit, Bool.and_eq_true, decide_eq_true_eq]
          omega
        · exact absurd h (by simp)

theorem lexNumber_lead {s : PyStr} {t : NumberToken} (h : lexNumber s = some t) :
    t.lead ≠ [] ∧ t.lead.all isDigit = true := by
  have hunsigned : ∀ {neg s}, lexUnsigned neg s = some t → t.lead ≠ [] ∧ t.lead.all isDigit = true := by
    intro neg s hs
    unfold lexUnsigned at hs
    split at hs
    · exact absurd hs (by simp)
    · next lead r hlead =>
      simp only [Option.some.injEq] at hs
      subst hs
      exact lexNat_digits hlead
  cases s with
  | nil => exact absurd h (by simp [lexNumber])
  | cons c s =>
      simp only [lexNumber] at h
      split at h
      · exact hunsigned h
      · exact hunsigned h

theorem parseScalar_encodable {s : PyStr} {v : Json F} {r : PyStr}
    (h : parseScalar s = .ok (v, r)) : v.encodable true = true := by
  unfold parseScalar at h
  split at h
  · simp only [Except.ok.injEq, Prod.mk.injEq] at h
    exact h.1 ▸ rfl
  · simp only [Except.ok.injEq, Prod.mk.injEq] at h
    exact h.1 ▸ rfl
  · simp only [Except.ok.injEq, Prod.mk.injEq] at h
    exact h.1 ▸ rfl
  · split at h
    · next t ht =>
      obtain ⟨w, hw, he⟩ := map_eq_ok h
      simp only [Prod.mk.injEq] at he
      obtain ⟨rfl, -⟩ := he
      obtain ⟨hne, hdigits⟩ := lexNumber_lead ht
      unfold NumberToken.value at hw
      split at hw
      · split at hw
        · exact absurd hw (by simp)
        · next hlen =>
          have hlt := digitsVal_lt hdigits
          have hle : (natText (digitsVal t.lead)).length ≤ t.lead.length :=
            (natText_length_le (List.length_pos_iff.2 hne)).2 hlt
          simp only [Except.ok.injEq] at hw
          subst hw
          simp only [Json.encodable, decide_eq_true_eq]
          have habs : (if t.neg then -(digitsVal t.lead : Int) else digitsVal t.lead).natAbs =
              digitsVal t.lead := by
            split <;> simp
          rw [habs]
          omega
      · simp only [Except.ok.injEq] at hw
        subst hw
        rfl
    · split at h
      · simp only [Except.ok.injEq, Prod.mk.injEq] at h
        exact h.1 ▸ rfl
      · simp only [Except.ok.injEq, Prod.mk.injEq] at h
        exact h.1 ▸ rfl
      · simp only [Except.ok.injEq, Prod.mk.injEq] at h
        exact h.1 ▸ rfl
      · exact absurd h (by simp)

/-- **The integers that `loads` reads are within the limit of `dumps`.** -/
theorem loads_encodable {s : PyStr} {v : Json F} (h : loads s = .ok v) :
    v.encodable true = true := by
  refine loads_forall (P := fun v => v.encodable true = true) (fun _ _ _ => parseScalar_encodable)
    (fun _ => rfl) (fun _ => encodableList_iff.2) (fun kvs hkvs => ?_) h
  exact encodableMembers_iff.2 fun kv hkv => hkvs kv ((dictOf_spec kvs).2 kv hkv)

/-! ## Lengths -/

mutual

/-- No fewer characters than the compact text of a value. -/
def Json.weight : Json F → Nat
  | .null => 4
  | .bool _ => 5
  | .int n => (natText n.natAbs).length + 1
  | .float f => (floatText f).length
  | .str s => 6 * s.length + 2
  | .arr xs => 2 + weightList xs
  | .obj kvs => 2 + weightMembers kvs

def weightList : List (Json F) → Nat
  | [] => 0
  | x :: xs => 1 + x.weight + weightList xs

def weightMembers : List (PyStr × Json F) → Nat
  | [] => 0
  | (k, v) :: kvs => 4 + 6 * k.length + v.weight + weightMembers kvs

end

theorem quote_length_le (s : PyStr) : (quote s).length ≤ 6 * s.length + 2 := by
  have hchar : ∀ c, (escapeChar c).length ≤ 6 := by
    intro c
    unfold escapeChar
    repeat' split
    all_goals simp
  have hall : (s.flatMap escapeChar).length ≤ 6 * s.length := by
    induction s with
    | nil => simp
    | cons c s ih =>
        have := hchar c
        simp only [List.flatMap_cons, List.length_append, List.length_cons]
        omega
  simp only [quote, List.length_cons, List.length_append, List.length_nil]
  omega

theorem printItems_length_le (l : Nat) {xs : List (Json F)}
    (h : ∀ x ∈ xs, (x.print Layout.compact l).length ≤ x.weight) :
    (printItems Layout.compact l xs).length ≤ weightList xs := by
  induction xs with
  | nil => simp [printItems, weightList]
  | cons x xs ih =>
      have hx := h x (List.mem_cons_self ..)
      have hxs := ih fun y hy => h y (List.mem_cons_of_mem _ hy)
      simp only [printItems, weightList, Layout.compact, List.length_cons, List.length_append,
        List.length_nil] at hx hxs ⊢
      omega

theorem printMembers_length_le (l : Nat) {kvs : List (PyStr × Json F)}
    (h : ∀ kv ∈ kvs, (kv.2.print Layout.compact l).length ≤ kv.2.weight) :
    (printMembers Layout.compact l kvs).length ≤ weightMembers kvs := by
  induction kvs with
  | nil => simp [printMembers, weightMembers]
  | cons kv kvs ih =>
      obtain ⟨k, v⟩ := kv
      have hk := quote_length_le k
      have hv := h (k, v) (List.mem_cons_self ..)
      have hkvs := ih fun y hy => h y (List.mem_cons_of_mem _ hy)
      simp only [printMembers, weightMembers, Layout.compact, List.length_cons, List.length_append,
        List.length_nil] at hv hkvs ⊢
      omega

theorem print_length_le (v : Json F) (l : Nat) :
    (v.print Layout.compact l).length ≤ v.weight := by
  induction v using Json.inductOn generalizing l with
  | null => exact le_refl 4
  | bool b => cases b <;> simp [Json.print, Json.weight, py]
  | int n =>
      cases n with
      | ofNat n =>
          show (natText n).length ≤ _
          simp [Json.weight]
      | negSucc n =>
          show (45 :: natText (n + 1)).length ≤ _
          simp [Json.weight]
  | float f => exact le_refl _
  | str s => exact quote_length_le s
  | arr xs ih =>
      cases xs with
      | nil => simp [Json.print, Json.weight]
      | cons x xs =>
          have hx := ih x (List.mem_cons_self ..) (l + 1)
          have hxs := printItems_length_le (l + 1) fun y hy => ih y (List.mem_cons_of_mem _ hy) (l + 1)
          simp only [Json.print, Json.weight, weightList, Layout.compact, List.length_cons,
            List.length_append, List.length_nil] at hx hxs ⊢
          omega
  | obj kvs ih =>
      cases kvs with
      | nil => simp [Json.print, Json.weight]
      | cons kv kvs =>
          obtain ⟨k, v⟩ := kv
          have hk := quote_length_le k
          have hv := ih (k, v) (List.mem_cons_self ..) (l + 1)
          have hkvs := printMembers_length_le (l + 1) fun y hy =>
            ih y (List.mem_cons_of_mem _ hy) (l + 1)
          simp only [Json.print, Json.weight, weightMembers, Layout.compact, List.length_cons,
            List.length_append, List.length_nil] at hv hkvs ⊢
          omega

omit [PyFloat F] in
theorem encodeUtf8_length_le {s : PyStr} {bs : Bytes} (h : encodeUtf8 s = some bs) :
    bs.length ≤ 4 * s.length := by
  induction s generalizing bs with
  | nil =>
      simp only [encodeUtf8, Option.some.injEq] at h
      simp [← h]
  | cons c s ih =>
      obtain ⟨b, bs', hb, hbs', rfl⟩ := encodeUtf8_cons.1 h
      have hrest := ih hbs'
      have hchar : b.length ≤ 4 := by
        unfold utf8Char at hb
        repeat' split at hb
        all_goals simp only [Option.some.injEq, reduceCtorEq] at hb
        all_goals simp [← hb]
      simp only [List.length_append, List.length_cons]
      omega

end Codec

end Elyra.Python
