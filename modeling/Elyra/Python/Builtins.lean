import Elyra.Python.JsonCanon

set_option autoImplicit false

/-! # Built-in conversions

The conversions the engine applies to the untyped values of a mapping: truthiness (`value or
default`), `int(value)`, `str(value)`, and `os.path.normpath`. A value is a `Json F`: the mappings
come from decoded kernel events, fanotify records and JSON documents. -/

namespace Elyra.Python

variable {F : Type}

/-- The exceptions the modelled code distinguishes. -/
inductive PyExc where
  | valueError
  | typeError
  | overflowError
  | assertionError
  | attributeError
  deriving DecidableEq, Repr

/-- What the conversions use of a float besides its text. -/
class FloatNum (F : Type) extends PyFloat F where
  /-- `int(x)`: truncation; `ValueError` for NaN and `OverflowError` for the infinities. -/
  trunc : F → Except PyExc Int
  isZero : F → Bool
  /-- `float(text)`; `none` is the `ValueError`. -/
  ofStr : PyStr → Option F

/-- A mapping with string keys. -/
abbrev Mapping (F : Type) := List (PyStr × Json F)

section Conversions

variable [FloatNum F]

/-- `bool(value)`. -/
def truthy : Json F → Bool
  | .null => false
  | .bool b => b
  | .int n => decide (n ≠ 0)
  | .float f => !FloatNum.isZero f
  | .str s => !s.isEmpty
  | .arr xs => !xs.isEmpty
  | .obj kvs => !kvs.isEmpty

/-- `mapping.get(key)` where an absent key and a falsy value are both replaced by the caller's
    default: the value of `mapping.get(key) or ...` when it is truthy. -/
def getTruthy (m : Mapping F) (key : String) : Option (Json F) :=
  (lookup (py key) m).filter truthy

/-- `str.isspace` of one character. -/
def isSpace (c : Nat) : Bool :=
  (9 ≤ c && c ≤ 13) || (28 ≤ c && c ≤ 32) || c == 0x85 || c == 0xA0 || c == 0x1680 ||
    (0x2000 ≤ c && c ≤ 0x200A) || c == 0x2028 || c == 0x2029 || c == 0x202F || c == 0x205F ||
    c == 0x3000

/-- `text.strip()`. -/
def strip (s : PyStr) : PyStr :=
  ((s.dropWhile isSpace).reverse.dropWhile isSpace).reverse

/-- Digits with single underscores between them. -/
def digitsWithUnderscores : PyStr → Bool
  | [] => false
  | [c] => isDigit c
  | c :: 95 :: rest => isDigit c && digitsWithUnderscores rest
  | c :: rest => isDigit c && digitsWithUnderscores rest

/-- The value of a digit text; CPython refuses more than `maxStrDigits` digits. -/
def intOfDigits (s : PyStr) : Option Int :=
  if digitsWithUnderscores s ∧ (s.filter isDigit).length ≤ maxStrDigits then
    some ((s.filter isDigit).foldl (fun acc c => acc * 10 + (c - 48 : Nat)) (0 : Nat) : Nat)
  else none

/-- `int(text)`, for texts of ASCII digits. -/
def intOfStr (s : PyStr) : Option Int :=
  match strip s with
  | 45 :: ds => (intOfDigits ds).map (-·)
  | 43 :: ds => intOfDigits ds
  | ds => intOfDigits ds

/-- `int(value)`. -/
def pyInt : Json F → Except PyExc Int
  | .bool b => .ok (if b then 1 else 0)
  | .int n => .ok n
  | .float f => FloatNum.trunc f
  | .str s =>
      match intOfStr s with
      | some n => .ok n
      | none => .error .valueError
  | _ => .error .typeError

/-- `str(x)` of a float. -/
def floatStr (f : F) : PyStr :=
  if PyFloat.finite f then PyFloat.repr f
  else if PyFloat.special f = py "NaN" then py "nan"
  else if PyFloat.special f = py "Infinity" then py "inf"
  else py "-inf"

/-- `str(value)`. Containers, which no collector puts in a field read as text, are given their JSON
    text. -/
def pyStr : Json F → PyStr
  | .null => py "None"
  | .bool true => py "True"
  | .bool false => py "False"
  | .int n => intText n
  | .float f => floatStr f
  | .str s => s
  | v => v.print Layout.spaced 0

end Conversions

/-! ### The float interface has instances -/

/-- Zero and the three non-finite floats. -/
inductive SampleFloat where
  | zero
  | nan
  | inf
  | negInf
  deriving DecidableEq, Repr

def SampleFloat.special : SampleFloat → PyStr
  | .zero => py "0.0"
  | .nan => py "NaN"
  | .inf => py "Infinity"
  | .negInf => py "-Infinity"

instance : FloatNum SampleFloat where
  repr _ := py "0.0"
  ofToken _ := .zero
  finite f := f == .zero
  nan := .nan
  inf := .inf
  negInf := .negInf
  special := SampleFloat.special
  ofToken_repr := by intro f h; cases f <;> simp_all
  repr_token := fun _ _ => ⟨false, [48], [46, 48], [], by decide, .inl rfl,
    .inr ⟨48, [], rfl, by decide⟩, .inl rfl, by decide⟩
  special_cases := by intro f h; cases f <;> simp_all [SampleFloat.special]
  trunc
    | .zero => .ok 0
    | .nan => .error .valueError
    | _ => .error .overflowError
  isZero f := f == .zero
  ofStr s :=
    if s = py "0.0" then some .zero
    else if s = py "nan" then some .nan
    else if s = py "inf" then some .inf
    else if s = py "-inf" then some .negInf
    else none

/-- `text.upper()` on the ASCII letters. -/
def upper (s : PyStr) : PyStr := s.map fun c => if 97 ≤ c ∧ c ≤ 122 then c - 32 else c

/-! ## Lexical paths -/

/-- `text.split("/")`. -/
def splitSlash : PyStr → List PyStr
  | [] => [[]]
  | c :: s =>
      if c = 47 then [] :: splitSlash s
      else
        match splitSlash s with
        | [] => [[c]]
        | comp :: rest => (c :: comp) :: rest

/-- How many leading slashes `normpath` keeps: one, or exactly two. -/
def initialSlashes : PyStr → Nat
  | 47 :: 47 :: 47 :: _ => 1
  | 47 :: 47 :: _ => 2
  | 47 :: _ => 1
  | _ => 0

/-- The component loop of `normpath`; `acc` holds the kept components, last first. -/
def normComponents (rooted : Bool) : List PyStr → List PyStr → List PyStr
  | acc, [] => acc.reverse
  | acc, comp :: rest =>
      if comp = [] ∨ comp = py "." then normComponents rooted acc rest
      else if comp ≠ py ".." ∨ (rooted = false ∧ acc = []) ∨ acc.head? = some (py "..") then
        normComponents rooted (comp :: acc) rest
      else normComponents rooted acc.tail rest

/-- `os.path.normpath(path)`. -/
def normpath (path : PyStr) : PyStr :=
  if path = [] then py "."
  else
    let n := initialSlashes path
    let comps := normComponents (decide (n ≠ 0)) [] (splitSlash path)
    let joined := List.replicate n 47 ++ List.intercalate [47] comps
    if joined = [] then py "." else joined

end Elyra.Python
