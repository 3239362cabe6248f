import Elyra.Correlation.Engine
import Elyra.Python.Exceptions
import Elyra.Python.JsonRoundTrip
import Elyra.Python.Raising
import Elyra.Signatures.Version

set_option autoImplicit false

/-! # The update check

`_version_tuple` and `decide_update` of `update/checker.py`, against the precedence of Semantic
Versioning. The tuple has one number for each dotted part, formed by all the digits of the part, and the
comparison looks at the first four. Major and minor are read as they are. The third number is the patch
with the digits of whatever follows it up to the next dot, and the fourth comes from the piece after
that dot, so tags and build metadata count as numbers (`SemVer.tail`). -/

namespace Elyra.Update.Checker

open Elyra.Python Elyra.Correlation
open Elyra.Signatures (Identifier Prerelease Precedence identifier)

/-! ## The code -/

/-- `value.lstrip("v")` -/
def lstripV (value : PyStr) : PyStr := value.dropWhile fun c => c == 118

/-- `int(digits or 0)`, for ASCII digits. The text of the `ValueError` is left out. -/
def intOf (digits : PyStr) : Except Exc Nat :=
  if digits.length ≤ maxStrDigits then .ok (digitsVal digits) else .error ⟨.valueError, []⟩

/-- `_version_tuple`. -/
def versionTuple (value : PyStr) : Except Exc (List Nat) :=
  (((lstripV value).splitOn 46).mapM fun part => intOf (part.filter isDigit)).map (List.take 4)

inductive Status where
  | upToDate
  | updateRequired
  | updateAvailable
  deriving DecidableEq, Repr

structure UpdateDecision where
  status : Status
  currentVersion : PyStr
  latestVersion : Option PyStr
  canDefer : Bool
  reason : PyStr
  releaseUrl : Option PyStr
  deriving DecidableEq

section Decide

variable {F : Type} [FloatNum F]

/-- `bool(manifest.get("mandatory", False))` -/
def isMandatory (manifest : Mapping F) : Bool := (lookup (py "mandatory") manifest).any truthy

/-- `bool(mandatory) or _version_tuple(current_version) < _version_tuple(minimum)` -/
def mustUpdate (manifest : Mapping F) (currentVersion : PyStr) : Except Exc Bool :=
  if isMandatory manifest then .ok true
  else do
    let current ← versionTuple currentVersion
    let required ← versionTuple (textOr manifest "min_supported_version" currentVersion)
    return decide (current < required)

def decideUpdate (manifest : Mapping F) (currentVersion : PyStr) : Except Exc UpdateDecision := do
  let latest := lstripV (textOr manifest "version" [])
  if latest = [] then
    return ⟨.upToDate, currentVersion, none, true, py "no newer release", none⟩
  else
    let new ← versionTuple latest
    let current ← versionTuple currentVersion
    if new ≤ current then
      return ⟨.upToDate, currentVersion, some latest, true, py "no newer release", none⟩
    else
      let mandatory ← mustUpdate manifest currentVersion
      return {
        status := if mandatory then .updateRequired else .updateAvailable
        currentVersion := currentVersion
        latestVersion := some latest
        canDefer := !mandatory
        reason := if mandatory then py "installed version is below the supported minimum"
          else py "new release available"
        releaseUrl := (getTruthy manifest "url").map pyStr }

end Decide

/-! ## Semantic versions -/

/-- `[0-9A-Za-z-]` -/
def isIdentifierChar (c : Nat) : Bool :=
  isDigit c || (65 ≤ c && c ≤ 90) || (97 ≤ c && c ≤ 122) || c == 45

/-- An identifier of build metadata. -/
def IsIdentifier (s : PyStr) : Prop := s ≠ [] ∧ s.all isIdentifierChar = true

/-- An identifier of a pre-release: a number has no leading zero. -/
def IsPreIdentifier (s : PyStr) : Prop :=
  IsIdentifier s ∧ (s.all isDigit = true → s = [48] ∨ s.head? ≠ some 48)

instance : DecidablePred IsIdentifier := fun s =>
  inferInstanceAs (Decidable (s ≠ [] ∧ s.all isIdentifierChar = true))

instance : DecidablePred IsPreIdentifier := fun s =>
  inferInstanceAs (Decidable (IsIdentifier s ∧ (s.all isDigit = true → s = [48] ∨ s.head? ≠ some 48)))

/-- A version of Semantic Versioning 2.0. -/
structure SemVer where
  major : Nat
  minor : Nat
  patch : Nat
  pre : List PyStr
  build : List PyStr
  pre_ok : ∀ i ∈ pre, IsPreIdentifier i
  build_ok : ∀ i ∈ build, IsIdentifier i

namespace SemVer

/-- A mark and the identifiers after it, if there are any. -/
def marked (mark : Nat) (ids : List PyStr) : PyStr :=
  if ids = [] then [] else mark :: List.intercalate [46] ids

/-- What follows the patch. -/
def suffix (v : SemVer) : PyStr := marked 45 v.pre ++ marked 43 v.build

def text (v : SemVer) : PyStr :=
  natText v.major ++ 46 :: (natText v.minor ++ 46 :: (natText v.patch ++ v.suffix))

def prerelease (v : SemVer) : Prerelease :=
  if v.pre = [] then ⊤ else ((v.pre.map identifier : List Identifier) : Prerelease)

/-- The precedence of a version. Build metadata does not count. -/
def precedence (v : SemVer) : Precedence :=
  toLex (toLex (v.major, toLex (v.minor, v.patch)), v.prerelease)

/-- The text of a version, with or without a `v`. -/
def tagged (v : SemVer) (tag : Bool) : PyStr := if tag then 118 :: v.text else v.text

/-- The dotted pieces of what follows the patch. -/
def pieces (v : SemVer) : List PyStr := v.suffix.splitOn 46

/-- The numbers read after major and minor: the digits of the patch and of what follows it up to the
    next dot, and the digits of the piece after that dot. -/
def tail (v : SemVer) : List Nat :=
  digitsVal (natText v.patch ++ (v.pieces.headD []).filter isDigit) ::
    (v.pieces.tail.take 1).map fun piece => digitsVal (piece.filter isDigit)

/-- No dotted part has more digits than `int` converts. -/
def Readable (v : SemVer) : Prop :=
  ∀ part ∈ v.text.splitOn 46, (part.filter isDigit).length ≤ maxStrDigits

end SemVer

/-! ## The numbers read -/

theorem splitOn_append_of_not_mem {sep : Nat} {a b : PyStr} (h : sep ∉ a) :
    (a ++ b).splitOn sep = (a ++ (b.splitOn sep).headD []) :: (b.splitOn sep).tail := by
  induction a with
  | nil =>
      cases hb : b.splitOn sep with
      | nil => exact absurd hb (List.splitOn_ne_nil sep b)
      | cons piece pieces => simp [hb]
  | cons c a ih =>
      rw [List.mem_cons, not_or] at h
      have hc : (c == sep) = false := beq_false_of_ne fun hcs => h.1 hcs.symm
      rw [List.cons_append, List.splitOn_cons_eq_if_modifyHead, hc, ih h.2]
      rfl

theorem dot_not_mem_natText (n : Nat) : 46 ∉ natText n := by
  intro h
  have := List.all_eq_true.1 (natText_digits n) 46 h
  exact absurd this (by decide)

theorem filter_natText (n : Nat) : (natText n).filter isDigit = natText n :=
  List.filter_eq_self.2 (List.all_eq_true.1 (natText_digits n))

namespace SemVer

variable (v : SemVer)

theorem splitOn_text : v.text.splitOn 46 = natText v.major :: natText v.minor ::
    (natText v.patch ++ v.pieces.headD []) :: v.pieces.tail := by
  rw [text, List.splitOn_append_cons_self_of_not_mem (dot_not_mem_natText _),
    List.splitOn_append_cons_self_of_not_mem (dot_not_mem_natText _),
    splitOn_append_of_not_mem (dot_not_mem_natText _), pieces]

theorem lstripV_text : lstripV v.text = v.text := by
  obtain ⟨c, ds, hc, hdigit⟩ := natText_head v.major
  have hne : (c == 118) = false := by
    refine beq_false_of_ne ?_
    rintro rfl
    exact absurd hdigit (by decide)
  rw [lstripV, text, hc, List.cons_append, List.dropWhile_cons_of_neg (by simp [hne])]

theorem lstripV_tagged (tag : Bool) : lstripV (v.tagged tag) = v.text := by
  cases tag with
  | false => exact v.lstripV_text
  | true => exact v.lstripV_text

theorem text_ne_nil : v.text ≠ [] := by
  obtain ⟨c, ds, hc, -⟩ := natText_head v.major
  rw [text, hc]
  exact List.cons_ne_nil _ _

/-- The four numbers. -/
def numbers : List Nat := v.major :: v.minor :: v.tail

end SemVer

theorem intOf_ok {digits : PyStr} {n : Nat} :
    intOf digits = .ok n ↔ digits.length ≤ maxStrDigits ∧ digitsVal digits = n := by
  unfold intOf
  split
  · next h => rw [Except.ok.injEq, and_iff_right h]
  · next h => exact iff_of_false nofun fun hn => h hn.1

theorem mapM_intOf_ok {parts : List PyStr} {ns : List Nat} :
    parts.mapM (fun part => intOf (part.filter isDigit)) = .ok ns ↔
      (∀ part ∈ parts, (part.filter isDigit).length ≤ maxStrDigits) ∧
        parts.map (fun part => digitsVal (part.filter isDigit)) = ns := by
  induction parts generalizing ns with
  | nil => exact ⟨fun h => ⟨(fun _ h => nomatch h), Except.ok.inj h⟩, fun h => congrArg Except.ok h.2⟩
  | cons part parts ih =>
      rw [List.mapM_cons, List.forall_mem_cons, List.map_cons]
      constructor
      · intro h
        obtain ⟨n, hn, h⟩ := bind_ok.1 h
        obtain ⟨rest, hrest, h⟩ := bind_ok.1 h
        obtain ⟨hlen, hval⟩ := intOf_ok.1 hn
        obtain ⟨hlens, hvals⟩ := ih.1 hrest
        rw [hval, hvals]
        exact ⟨⟨hlen, hlens⟩, Except.ok.inj h⟩
      · rintro ⟨⟨hlen, hlens⟩, rfl⟩
        exact bind_ok.2 ⟨_, intOf_ok.2 ⟨hlen, rfl⟩, bind_ok.2 ⟨_, ih.2 ⟨hlens, rfl⟩, rfl⟩⟩

/-- What `_version_tuple` reads of a version. -/
theorem versionTuple_ok {v : SemVer} {tag : Bool} {ns : List Nat} :
    versionTuple (v.tagged tag) = .ok ns ↔ v.Readable ∧ v.numbers = ns := by
  have hnumbers : ((v.text.splitOn 46).map fun part => digitsVal (part.filter isDigit)).take 4 =
      v.numbers := by
    simp only [v.splitOn_text, List.map_cons, List.take_succ_cons, filter_natText, digitsVal_natText,
      List.filter_append, SemVer.numbers, SemVer.tail, ← List.map_take]
  rw [versionTuple, v.lstripV_tagged]
  constructor
  · intro h
    obtain ⟨all, hall, rfl⟩ := map_eq_ok h
    obtain ⟨hlens, rfl⟩ := mapM_intOf_ok.1 hall
    exact ⟨hlens, hnumbers.symm⟩
  · rintro ⟨hlens, rfl⟩
    rw [mapM_intOf_ok.2 ⟨hlens, rfl⟩, ← hnumbers]
    rfl

/-! ## The comparison -/

/-- Where major and minor are the same, the last numbers read order two versions as patch and
    pre-release do. -/
def TailsAgree (a b : SemVer) : Prop :=
  a.major = b.major → a.minor = b.minor →
    (a.tail ≤ b.tail ↔ toLex (a.patch, a.prerelease) ≤ toLex (b.patch, b.prerelease))

theorem cons_le_cons {m n : Nat} {s t : List Nat} : m :: s ≤ n :: t ↔ m < n ∨ m = n ∧ s ≤ t := by
  rw [← not_lt, List.cons_lt_cons_iff, ← not_lt]
  rcases Nat.lt_trichotomy m n with h | rfl | h
  · simp [h, h.not_gt, h.ne']
  · simp
  · simp [h, h.not_gt, h.ne']

theorem numbers_le_iff {a b : SemVer} : a.numbers ≤ b.numbers ↔
    a.major < b.major ∨ a.major = b.major ∧
      (a.minor < b.minor ∨ a.minor = b.minor ∧ a.tail ≤ b.tail) := by
  rw [SemVer.numbers, SemVer.numbers, cons_le_cons, cons_le_cons]

theorem precedence_le_iff_tail {a b : SemVer} : a.precedence ≤ b.precedence ↔
    a.major < b.major ∨ a.major = b.major ∧ (a.minor < b.minor ∨ a.minor = b.minor ∧
      toLex (a.patch, a.prerelease) ≤ toLex (b.patch, b.prerelease)) := by
  simp only [SemVer.precedence, Prod.Lex.toLex_le_toLex, Prod.Lex.toLex_lt_toLex, toLex_inj,
    Prod.mk.injEq]
  tauto

/-- The numbers order two versions by precedence exactly if their tails agree. -/
theorem tailsAgree_iff {a b : SemVer} :
    TailsAgree a b ↔ (a.numbers ≤ b.numbers ↔ a.precedence ≤ b.precedence) := by
  rw [numbers_le_iff, precedence_le_iff_tail, TailsAgree]
  constructor
  · intro h
    refine or_congr_right (and_congr_right fun hmajor => or_congr_right (and_congr_right fun hminor => ?_))
    exact h hmajor hminor
  · intro h hmajor hminor
    simpa [hmajor, hminor] using h

/-- Releases without metadata are read as they are. -/
theorem TailsAgree.of_release {a b : SemVer} (ha : a.pre = [] ∧ a.build = [])
    (hb : b.pre = [] ∧ b.build = []) : TailsAgree a b := by
  have htail : ∀ v : SemVer, v.pre = [] ∧ v.build = [] → v.tail = [v.patch] := by
    rintro v ⟨hpre, hbuild⟩
    have hsuffix : v.pieces = [[]] := by
      rw [SemVer.pieces, SemVer.suffix, hpre, hbuild]
      rfl
    simp [SemVer.tail, hsuffix, digitsVal_natText]
  intro _ _
  rw [htail a ha, htail b hb, SemVer.prerelease, SemVer.prerelease, if_pos ha.1, if_pos hb.1,
    Prod.Lex.toLex_le_toLex, cons_le_cons]
  simp

/-! ## The decision -/

/-- The status that the precedence of the versions asks for. -/
structure Follows (d : UpdateDecision) (latest current minimum : SemVer) (mandatory : Bool) : Prop where
  upToDate : d.status = .upToDate ↔ latest.precedence ≤ current.precedence
  required : ¬ latest.precedence ≤ current.precedence →
    (d.status = .updateRequired ↔ mandatory = true ∨ current.precedence < minimum.precedence)

/-- The texts that are read can be, and the comparisons that are made come out by precedence. -/
structure Comparable (latest current minimum : SemVer) (mandatory : Bool) : Prop where
  readable : latest.Readable ∧ current.Readable
  order : TailsAgree latest current
  below : ¬ latest.precedence ≤ current.precedence → mandatory = false →
    minimum.Readable ∧ TailsAgree minimum current

variable {F : Type} [FloatNum F]

section Manifest

variable {manifest : Mapping F} {latest current minimum : SemVer} {tag tag' tag'' : Bool}

theorem mustUpdate_ok
    (hminimum : lookup (py "min_supported_version") manifest = some (.str (minimum.tagged tag')))
    (hcurrent : current.Readable) {b : Bool} :
    mustUpdate manifest (current.tagged tag'') = .ok b ↔
      isMandatory manifest = true ∧ b = true ∨
        isMandatory manifest = false ∧ minimum.Readable ∧
          b = decide (current.numbers < minimum.numbers) := by
  have hmin : textOr manifest "min_supported_version" (current.tagged tag'') =
      minimum.tagged tag' := by
    rw [textOr, hminimum]
    rfl
  rw [mustUpdate, hmin]
  cases isMandatory manifest with
  | true => simp [eq_comm]
  | false =>
      simp only [Bool.false_eq_true, if_false, false_and, true_and, false_or]
      constructor
      · intro h
        obtain ⟨now, hnow, h⟩ := bind_ok.1 h
        obtain ⟨required, hrequired, h⟩ := bind_ok.1 h
        obtain ⟨-, rfl⟩ := versionTuple_ok.1 hnow
        obtain ⟨hreadable, rfl⟩ := versionTuple_ok.1 hrequired
        exact ⟨hreadable, (Except.ok.inj h).symm⟩
      · rintro ⟨hreadable, rfl⟩
        exact bind_ok.2 ⟨_, versionTuple_ok.2 ⟨hcurrent, rfl⟩,
          bind_ok.2 ⟨_, versionTuple_ok.2 ⟨hreadable, rfl⟩, rfl⟩⟩

/-- Which status `decide_update` returns for versions. -/
theorem decideUpdate_ok (hversion : lookup (py "version") manifest = some (.str (latest.tagged tag)))
    {status : Status} :
    (∃ d, decideUpdate manifest (current.tagged tag'') = .ok d ∧ d.status = status) ↔
      (latest.Readable ∧ current.Readable) ∧
        (latest.numbers ≤ current.numbers ∧ status = .upToDate ∨
          ¬ latest.numbers ≤ current.numbers ∧
            ∃ b, mustUpdate manifest (current.tagged tag'') = .ok b ∧
              status = if b then .updateRequired else .updateAvailable) := by
  have hlatest : lstripV (textOr manifest "version" []) = latest.tagged false := by
    rw [textOr, hversion]
    exact latest.lstripV_tagged tag
  have hne : latest.tagged false ≠ [] := latest.text_ne_nil
  unfold decideUpdate
  simp only [hlatest, if_neg hne]
  constructor
  · rintro ⟨d, h, rfl⟩
    obtain ⟨new, hnew, h⟩ := bind_ok.1 h
    obtain ⟨now, hnow, h⟩ := bind_ok.1 h
    obtain ⟨hreadable, rfl⟩ := versionTuple_ok.1 hnew
    obtain ⟨hreadable', rfl⟩ := versionTuple_ok.1 hnow
    refine ⟨⟨hreadable, hreadable'⟩, ?_⟩
    split at h
    · next hle =>
        obtain rfl := Except.ok.inj h
        exact .inl ⟨hle, rfl⟩
    · next hle =>
        obtain ⟨b, hb, h⟩ := bind_ok.1 h
        obtain rfl := Except.ok.inj h
        exact .inr ⟨hle, b, hb, rfl⟩
  · rintro ⟨⟨hreadable, hreadable'⟩, hstatus⟩
    rw [versionTuple_ok.2 ⟨hreadable, rfl⟩, versionTuple_ok.2 ⟨hreadable', rfl⟩]
    simp only [bind, Except.bind]
    rcases hstatus with ⟨hle, rfl⟩ | ⟨hle, b, hb, rfl⟩
    · rw [if_pos hle]
      exact ⟨_, rfl, rfl⟩
    · rw [if_neg hle, hb]
      exact ⟨_, rfl, rfl⟩

/-- The release `1.10.0`. -/
def version1100 : SemVer := ⟨1, 10, 0, [], [], (fun _ h => nomatch h), (fun _ h => nomatch h)⟩

/-- The release candidate `1.0.0-rc.1`. -/
def candidate100 : SemVer where
  major := 1
  minor := 0
  patch := 0
  pre := [py "rc", py "1"]
  build := []
  pre_ok := by decide
  build_ok := fun _ h => nomatch h

/-- The release `1.0.0`. -/
def version100 : SemVer := ⟨1, 0, 0, [], [], (fun _ h => nomatch h), (fun _ h => nomatch h)⟩

end Manifest

/-- A manifest with a version, and `1.0.0` as the oldest that is supported. -/
def manifestOf (version : PyStr) : Mapping SampleFloat :=
  [(py "version", .str version), (py "min_supported_version", .str (py "1.0.0"))]

end Elyra.Update.Checker
