import Elyra.Python.Text
import Elyra.Python.Dict

set_option autoImplicit false

/-! # JSON values and `json.dumps`

`Json F` is the type of JSON values over a type `F` of floats. Objects are association lists in
insertion order, as Python dictionaries are; `Json.WF` says that no object repeats a key.

`Json.print` is the text `json.dumps(value, ensure_ascii=False)` produces under a layout: the
compact separators, the default ones, or an indentation. `sort_keys=True` is `Json.sortKeys` applied
first. The conditions under which `dumps` raises (a non-finite float under `allow_nan=False`, an
integer beyond the interpreter's digit limit) are `Json.encodable`. -/

namespace Elyra.Python

/-! ## Characters -/

def isDigit (c : Nat) : Bool := 48 ≤ c && c ≤ 57

/-- JSON white space: space, tab, line feed, carriage return. -/
def isWs (c : Nat) : Bool := c == 32 || c == 9 || c == 10 || c == 13

/-! ## Floats

A finite float is written as its `repr`, which `float()` reads back exactly. That round trip, and
that the text is a JSON number with a fraction or an exponent, is all that is used of IEEE 754. -/

/-- A JSON number token that is read as a float: an integer part, then a fraction or an exponent. -/
structure FloatToken (t : PyStr) : Prop where
  split : ∃ (neg : Bool) (lead frac exp : PyStr), t = (if neg then [45] else []) ++ lead ++ frac ++ exp ∧
    (lead = [48] ∨ ∃ c ds, lead = c :: ds ∧ 49 ≤ c ∧ c ≤ 57 ∧ ds.all isDigit = true) ∧
    (frac = [] ∨ ∃ d ds, frac = 46 :: d :: ds ∧ (d :: ds).all isDigit = true) ∧
    (exp = [] ∨ ∃ e sgn d ds, exp = e :: (sgn ++ d :: ds) ∧ (e = 101 ∨ e = 69) ∧
      (sgn = [] ∨ sgn = [43] ∨ sgn = [45]) ∧ (d :: ds).all isDigit = true) ∧
    ¬ (frac = [] ∧ exp = [])

/-- The part of Python's `float` that the JSON codec relies on. -/
class PyFloat (F : Type) where
  /-- `float.__repr__` of a finite float. -/
  repr : F → PyStr
  /-- `float(token)`. -/
  ofToken : PyStr → F
  finite : F → Bool
  nan : F
  inf : F
  negInf : F
  ofToken_repr : ∀ f, finite f = true → ofToken (repr f) = f
  repr_token : ∀ f, finite f = true → FloatToken (repr f)
  /-- What the encoder writes for the others, `NaN`, `Infinity` and `-Infinity`. -/
  special : F → PyStr
  special_cases : ∀ f, finite f = false →
    (f = nan ∧ special f = py "NaN") ∨ (f = inf ∧ special f = py "Infinity") ∨
    (f = negInf ∧ special f = py "-Infinity")

/-- The text `json.dumps` writes for a float. -/
def floatText {F : Type} [PyFloat F] (f : F) : PyStr :=
  if PyFloat.finite f then PyFloat.repr f else PyFloat.special f

/-! ## Values -/

/-- A JSON value. -/
inductive Json (F : Type) where
  | null
  | bool (b : Bool)
  | int (n : Int)
  | float (f : F)
  | str (s : PyStr)
  | arr (xs : List (Json F))
  | obj (kvs : List (PyStr × Json F))

variable {F : Type}

/-- Induction over a JSON value: an array from its elements, an object from its members. -/
theorem Json.inductOn {P : Json F → Prop} (null : P .null) (bool : ∀ b, P (.bool b))
    (int : ∀ n, P (.int n)) (float : ∀ f, P (.float f)) (str : ∀ s, P (.str s))
    (arr : ∀ xs, (∀ x ∈ xs, P x) → P (.arr xs))
    (obj : ∀ kvs, (∀ kv ∈ kvs, P kv.2) → P (.obj kvs)) (v : Json F) : P v := by
  refine @Json.rec F P (fun xs => ∀ x ∈ xs, P x) (fun kvs => ∀ kv ∈ kvs, P kv.2) (fun kv => P kv.2)
    null bool int float str arr obj ?_ ?_ ?_ ?_ ?_ v
  · intro x hx
    exact absurd hx (by simp)
  · intro x xs hx hxs y hy
    rcases List.mem_cons.1 hy with rfl | hy
    · exact hx
    · exact hxs y hy
  · intro kv hkv
    exact absurd hkv (by simp)
  · intro kv kvs hkv hkvs y hy
    rcases List.mem_cons.1 hy with rfl | hy
    · exact hkv
    · exact hkvs y hy
  · intro k v hv
    exact hv

/-! ## Sorting keys -/

/-- Code-point order of keys. -/
def keyLe : PyStr → PyStr → Bool
  | [], _ => true
  | _ :: _, [] => false
  | a :: as, b :: bs => if a < b then true else if b < a then false else keyLe as bs

/-- Insert a member before the first one with a larger key. -/
def insertMember (kv : PyStr × Json F) : List (PyStr × Json F) → List (PyStr × Json F)
  | [] => [kv]
  | kv' :: rest => if keyLe kv.1 kv'.1 then kv :: kv' :: rest else kv' :: insertMember kv rest

/-- `sorted(mapping.items())`. -/
def sortMembers : List (PyStr × Json F) → List (PyStr × Json F)
  | [] => []
  | kv :: rest => insertMember kv (sortMembers rest)

mutual

/-- The value `sort_keys=True` prints: every object, at every depth, in key order. -/
def Json.sortKeys : Json F → Json F
  | .null => .null
  | .bool b => .bool b
  | .int n => .int n
  | .float f => .float f
  | .str s => .str s
  | .arr xs => .arr (sortKeysList xs)
  | .obj kvs => .obj (sortMembers (sortKeysMembers kvs))

def sortKeysList : List (Json F) → List (Json F)
  | [] => []
  | x :: xs => x.sortKeys :: sortKeysList xs

def sortKeysMembers : List (PyStr × Json F) → List (PyStr × Json F)
  | [] => []
  | (k, v) :: kvs => (k, v.sortKeys) :: sortKeysMembers kvs

end

attribute [grind =] Json.sortKeys sortKeysList sortKeysMembers insertMember

/-! ## Well-formed and encodable values -/

mutual

/-- No object repeats a key. -/
def Json.WF : Json F → Prop
  | .arr xs => wfList xs
  | .obj kvs => (kvs.map Prod.fst).Nodup ∧ wfMembers kvs
  | _ => True

def wfList : List (Json F) → Prop
  | [] => True
  | x :: xs => x.WF ∧ wfList xs

def wfMembers : List (PyStr × Json F) → Prop
  | [] => True
  | (_, v) :: kvs => v.WF ∧ wfMembers kvs

end

theorem Json.wf_obj_nil : (Json.obj [] : Json F).WF := ⟨.nil, trivial⟩

/-! ## Text -/

/-- Decimal digits of `n`, most significant first; `fuel` bounds their number. -/
def natDigits : Nat → Nat → PyStr
  | 0, _ => []
  | fuel + 1, n => if n < 10 then [48 + n] else natDigits fuel (n / 10) ++ [48 + n % 10]

/-- `str(n)` of a natural number. -/
def natText (n : Nat) : PyStr := natDigits (n + 1) n

/-- `str(n)` of an integer. -/
def intText : Int → PyStr
  | .ofNat n => natText n
  | .negSucc n => 45 :: natText (n + 1)

/-- A lower-case hexadecimal digit. -/
def hexDigit (n : Nat) : Nat := if n < 10 then 48 + n else 87 + n

/-- `ESCAPE_DCT`: how the encoder writes one character of a string. -/
def escapeChar (c : Nat) : PyStr :=
  if c = 34 then [92, 34]
  else if c = 92 then [92, 92]
  else if c = 8 then [92, 98]
  else if c = 12 then [92, 102]
  else if c = 10 then [92, 110]
  else if c = 13 then [92, 114]
  else if c = 9 then [92, 116]
  else if c < 32 then [92, 117, 48, 48, hexDigit (c / 16), hexDigit (c % 16)]
  else [c]

/-- A JSON string literal. -/
def quote (s : PyStr) : PyStr := 34 :: (s.flatMap escapeChar ++ [34])

/-- Layout: the white space after a comma, after a colon and inside the brackets, by depth. -/
structure Layout where
  gap : Nat → PyStr
  colon : PyStr
  edge : Nat → PyStr
  gap_ws : ∀ l, (gap l).all isWs = true
  colon_ws : colon.all isWs = true
  edge_ws : ∀ l, (edge l).all isWs = true

/-- `separators=(",", ":")`. -/
def Layout.compact : Layout where
  gap := fun _ => []
  colon := []
  edge := fun _ => []
  gap_ws := fun _ => rfl
  colon_ws := rfl
  edge_ws := fun _ => rfl

/-- The default separators `(", ", ": ")`. -/
def Layout.spaced : Layout where
  gap := fun _ => [32]
  colon := [32]
  edge := fun _ => []
  gap_ws := fun _ => rfl
  colon_ws := rfl
  edge_ws := fun _ => rfl

/-- `indent=n`. -/
def Layout.indented (n : Nat) : Layout where
  gap := fun l => 10 :: List.replicate (n * l) 32
  colon := [32]
  edge := fun l => 10 :: List.replicate (n * l) 32
  gap_ws := fun l => by simp [isWs]
  colon_ws := rfl
  edge_ws := fun l => by simp [isWs]

section Print

variable [PyFloat F] (st : Layout)

mutual

/-- The text of a value at nesting depth `l`. -/
def Json.print (l : Nat) : Json F → PyStr
  | .null => py "null"
  | .bool true => py "true"
  | .bool false => py "false"
  | .int n => intText n
  | .float f => floatText f
  | .str s => quote s
  | .arr [] => [91, 93]
  | .arr (x :: xs) =>
      91 :: (st.edge (l + 1) ++ (x.print (l + 1) ++ (printItems (l + 1) xs ++ (st.edge l ++ [93]))))
  | .obj [] => [123, 125]
  | .obj ((k, v) :: kvs) =>
      123 :: (st.edge (l + 1) ++ (quote k ++ (58 :: (st.colon ++ (v.print (l + 1) ++
        (printMembers (l + 1) kvs ++ (st.edge l ++ [125])))))))

/-- The items of an array after the first. -/
def printItems (l : Nat) : List (Json F) → PyStr
  | [] => []
  | x :: xs => 44 :: (st.gap l ++ (x.print l ++ printItems l xs))

/-- The members of an object after the first. -/
def printMembers (l : Nat) : List (PyStr × Json F) → PyStr
  | [] => []
  | (k, v) :: kvs =>
      44 :: (st.gap l ++ (quote k ++ (58 :: (st.colon ++ (v.print l ++ printMembers l kvs)))))

end

attribute [grind =] Json.print printItems printMembers

end Print

/-! ## Encodability -/

section Encodable

variable [PyFloat F]

/-- `sys.int_info.default_max_str_digits`: longer conversions between `int` and `str` raise
    `ValueError`. -/
def maxStrDigits : Nat := 4300

mutual

/-- `json.dumps(value, allow_nan=...)` raises nothing: no non-finite float unless allowed, no
    integer beyond the digit limit. -/
def Json.encodable (allowNan : Bool) : Json F → Bool
  | .int n => decide ((natText n.natAbs).length ≤ maxStrDigits)
  | .float f => allowNan || PyFloat.finite f
  | .arr xs => encodableList allowNan xs
  | .obj kvs => encodableMembers allowNan kvs
  | _ => true

def encodableList (allowNan : Bool) : List (Json F) → Bool
  | [] => true
  | x :: xs => x.encodable allowNan && encodableList allowNan xs

def encodableMembers (allowNan : Bool) : List (PyStr × Json F) → Bool
  | [] => true
  | (_, v) :: kvs => v.encodable allowNan && encodableMembers allowNan kvs

end

attribute [grind =] Json.encodable encodableList encodableMembers

/-- `json.dumps(value, ensure_ascii=False, allow_nan=allowNan)` under a layout; `none` is the
    `ValueError`. -/
def dumps (st : Layout) (allowNan : Bool) (v : Json F) : Option PyStr :=
  if v.encodable allowNan then some (v.print st 0) else none

/-- The same with `sort_keys=True`. -/
def dumpsSorted (st : Layout) (allowNan : Bool) (v : Json F) : Option PyStr :=
  dumps st allowNan v.sortKeys

end Encodable

end Elyra.Python
