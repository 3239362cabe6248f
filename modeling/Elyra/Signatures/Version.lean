import Mathlib.Data.Prod.Lex
import Mathlib.Data.Sum.Order
import Mathlib.Data.List.Lex
import Mathlib.Order.WithBot
import Elyra.Python.JsonParse

set_option autoImplicit false

/-! # Version texts

The grammar of the version texts that are in use, three numbers and an optional rest, and the
precedence that Semantic Versioning 2.0 gives them: the numbers first, then a pre-release before the
release, then the identifiers of the pre-release one by one. Build metadata does not count. -/

namespace Elyra.Signatures

open Elyra.Python

/-! ## Grammar -/

/-- A run of digits and what follows it. -/
def digitRun (s : PyStr) : Option (PyStr × PyStr) :=
  match takeDigits s with
  | ([], _) => none
  | run => some run

/-- `[0-9]+\.` -/
def digitRunDot (s : PyStr) : Option (PyStr × PyStr) :=
  match digitRun s with
  | some (ds, 46 :: rest) => some (ds, rest)
  | _ => none

/-- The three numbers of a version as they are written, and the text after them. -/
structure Numbers where
  major : PyStr
  minor : PyStr
  patch : PyStr
  rest : PyStr
  deriving DecidableEq, Repr

def numbersOf (s : PyStr) : Option Numbers := do
  let (major, s) ← digitRunDot s
  let (minor, s) ← digitRunDot s
  let (patch, rest) ← digitRun s
  return ⟨major, minor, patch, rest⟩

/-- `[0-9A-Za-z.-]` -/
def isVersionChar (c : Nat) : Bool :=
  isDigit c || (65 ≤ c && c ≤ 90) || (97 ≤ c && c ≤ 122) || c == 46 || c == 45

/-- `_SEMVER.fullmatch`. -/
def isSemver (s : PyStr) : Bool :=
  match numbersOf s with
  | none => false
  | some n =>
      match n.rest with
      | [] => true
      | c :: rest => (c == 45 || c == 43) && !rest.isEmpty && rest.all isVersionChar

/-! ## Precedence -/

/-- Major, minor and patch. -/
abbrev Triple := ℕ ×ₗ ℕ ×ₗ ℕ

/-- An identifier of a pre-release. Numbers have lower precedence than other identifiers. -/
abbrev Identifier := ℕ ⊕ₗ PyStr

/-- The identifiers of a pre-release, or `⊤` for the release. -/
abbrev Prerelease := WithTop (List Identifier)

abbrev Precedence := Triple ×ₗ Prerelease

def Numbers.triple (n : Numbers) : Triple :=
  toLex (digitsVal n.major, toLex (digitsVal n.minor, digitsVal n.patch))

def identifier (s : PyStr) : Identifier :=
  if s ≠ [] ∧ s.all isDigit = true then toLex (.inl (digitsVal s)) else toLex (.inr s)

def prereleaseOf : PyStr → Prerelease
  | 45 :: rest => (((rest.takeWhile (· ≠ 43)).splitOn 46).map identifier : List Identifier)
  | _ => ⊤

def Numbers.precedence (n : Numbers) : Precedence := toLex (n.triple, prereleaseOf n.rest)

/-- The precedence of a version, `⊥` where the text is none. -/
def precedence (s : PyStr) : WithBot Precedence :=
  match numbersOf s with
  | none => ⊥
  | some n => n.precedence

theorem precedence_eq {s : PyStr} {n : Numbers} (h : numbersOf s = some n) :
    precedence s = n.precedence := by
  rw [precedence, h]

theorem numbersOf_of_isSemver {s : PyStr} (h : isSemver s = true) : ∃ n, numbersOf s = some n := by
  cases hn : numbersOf s with
  | none => simp [isSemver, hn] at h
  | some n => exact ⟨n, rfl⟩

/-- The numbers decide, or are the same and the pre-releases do. -/
theorem precedence_le_iff {s t : PyStr} {m n : Numbers} (hs : numbersOf s = some m)
    (ht : numbersOf t = some n) : precedence s ≤ precedence t ↔
      m.triple < n.triple ∨ m.triple = n.triple ∧ prereleaseOf m.rest ≤ prereleaseOf n.rest := by
  rw [precedence_eq hs, precedence_eq ht, WithBot.coe_le_coe]
  exact Prod.Lex.toLex_le_toLex

/-- A version is a pre-release of lower precedence than another with the same numbers. -/
def Demotes (old new : PyStr) : Prop :=
  ∃ m n, numbersOf old = some m ∧ numbersOf new = some n ∧ n.triple = m.triple ∧
    prereleaseOf n.rest < prereleaseOf m.rest

example : Demotes (py "1.0.0") (py "1.0.0-rc.1") :=
  ⟨_, _, rfl, rfl, by decide, by decide⟩

example : precedence (py "1.0.0-alpha.2") < precedence (py "1.0.0-alpha.10") := by decide

/-- Comparing the numbers alone lets a version decrease exactly when it demotes. -/
theorem precedence_lt_iff_demotes {old new : PyStr} {m n : Numbers} (hm : numbersOf old = some m)
    (hn : numbersOf new = some n) (hkey : ¬ n.triple < m.triple) :
    precedence new < precedence old ↔ Demotes old new := by
  rw [← not_le, precedence_le_iff hm hn]
  constructor
  · intro h
    obtain ⟨hne, hpre⟩ := not_or.1 h
    have heq : n.triple = m.triple := le_antisymm (not_lt.1 hne) (not_lt.1 hkey)
    exact ⟨m, n, hm, hn, heq, not_le.1 fun hle => hpre ⟨heq.symm, hle⟩⟩
  · rintro ⟨m', n', hm', hn', heq, hlt⟩
    obtain rfl : m' = m := Option.some.inj (hm'.symm.trans hm)
    obtain rfl : n' = n := Option.some.inj (hn'.symm.trans hn)
    rintro (hless | ⟨-, hle⟩)
    · exact absurd hless (by rw [heq]; exact lt_irrefl _)
    · exact absurd hlt (not_lt.2 hle)

end Elyra.Signatures
