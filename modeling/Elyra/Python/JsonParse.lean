import Elyra.Python.Json
import Elyra.Python.Raising

set_option autoImplicit false

/-! # `json.loads`

The recursive-descent scanner of the standard library on text already decoded to code points: the
JSON grammar extended with `NaN`, `Infinity` and `-Infinity`, lone surrogate escapes accepted, raw
control characters in strings refused, later duplicates of a key winning. Besides
`JSONDecodeError` it can raise a plain `ValueError`, on an integer literal beyond the digit limit.

The main result is the round trip `loads_print`: what `Json.print` writes under any layout, `loads`
reads back, so that printing is injective (`print_injective`). -/

namespace Elyra.Python

variable {F : Type}

/-- The two exceptions `json.loads` raises. -/
inductive LoadsError where
  | jsonDecodeError
  | valueError
  deriving DecidableEq, Repr

/-! ## Lexing -/

def skipWs : PyStr → PyStr
  | [] => []
  | c :: s => if isWs c then skipWs s else c :: s

/-- Split off the longest run of digits. -/
def takeDigits : PyStr → PyStr × PyStr
  | [] => ([], [])
  | c :: s => if isDigit c then (c :: (takeDigits s).1, (takeDigits s).2) else ([], c :: s)

/-- The part `0|[1-9][0-9]*` of the number pattern. -/
def lexNat : PyStr → Option (PyStr × PyStr)
  | [] => none
  | c :: s =>
      if c = 48 then some ([48], s)
      else if 49 ≤ c ∧ c ≤ 57 then some (c :: (takeDigits s).1, (takeDigits s).2)
      else none

/-- The optional part `\.[0-9]+`. -/
def lexFrac : PyStr → PyStr × PyStr
  | 46 :: s => if (takeDigits s).1 = [] then ([], 46 :: s)
      else (46 :: (takeDigits s).1, (takeDigits s).2)
  | s => ([], s)

/-- The optional sign of an exponent. -/
def lexSign : PyStr → PyStr × PyStr
  | [] => ([], [])
  | c :: s => if c = 43 ∨ c = 45 then ([c], s) else ([], c :: s)

/-- The optional part `[eE][-+]?[0-9]+`. -/
def lexExp : PyStr → PyStr × PyStr
  | [] => ([], [])
  | c :: s =>
      if c = 101 ∨ c = 69 then
        let (sgn, r) := lexSign s
        if (takeDigits r).1 = [] then ([], c :: s)
        else (c :: (sgn ++ (takeDigits r).1), (takeDigits r).2)
      else ([], c :: s)

/-- The value of a run of digits. -/
def digitsVal (s : PyStr) : Nat := s.foldl (fun acc c => acc * 10 + (c - 48)) 0

/-- A number token: sign, integer part, fraction, exponent and the rest of the text. -/
structure NumberToken where
  neg : Bool
  lead : PyStr
  frac : PyStr
  exp : PyStr
  rest : PyStr

def lexUnsigned (neg : Bool) (s : PyStr) : Option NumberToken :=
  match lexNat s with
  | none => none
  | some (lead, r) =>
      some ⟨neg, lead, (lexFrac r).1, (lexExp (lexFrac r).2).1, (lexExp (lexFrac r).2).2⟩

def lexNumber : PyStr → Option NumberToken
  | [] => none
  | c :: s => if c = 45 then lexUnsigned true s else lexUnsigned false (c :: s)

def NumberToken.text (t : NumberToken) : PyStr :=
  (if t.neg then [45] else []) ++ t.lead ++ t.frac ++ t.exp

/-- `int(token)` or `float(token)`. -/
def NumberToken.value [PyFloat F] (t : NumberToken) : Except LoadsError (Json F) :=
  if t.frac = [] ∧ t.exp = [] then
    if maxStrDigits < t.lead.length then .error .valueError
    else .ok (.int (if t.neg then -(digitsVal t.lead : Int) else digitsVal t.lead))
  else .ok (.float (PyFloat.ofToken t.text))

def hexVal (c : Nat) : Option Nat :=
  if 48 ≤ c ∧ c ≤ 57 then some (c - 48)
  else if 97 ≤ c ∧ c ≤ 102 then some (c - 87)
  else if 65 ≤ c ∧ c ≤ 70 then some (c - 55)
  else none

def hex4 (a b c d : Nat) : Option Nat :=
  match hexVal a, hexVal b, hexVal c, hexVal d with
  | some a, some b, some c, some d => some (((a * 16 + b) * 16 + c) * 16 + d)
  | _, _, _, _ => none

/-- The single-character escapes. -/
def simpleEscape (c : Nat) : Option Nat :=
  if c = 34 then some 34
  else if c = 92 then some 92
  else if c = 47 then some 47
  else if c = 98 then some 8
  else if c = 102 then some 12
  else if c = 110 then some 10
  else if c = 114 then some 13
  else if c = 116 then some 9
  else none

/-- `scanstring`: the characters up to the closing quote, and the text after it. A high surrogate
    escape directly followed by a low one is one code point. -/
def scanString : PyStr → Option (PyStr × PyStr)
  | [] => none
  | c :: s =>
      if c = 34 then some ([], s)
      else if c = 92 then
        match s with
        | [] => none
        | e :: s =>
            if e = 117 then
              match s with
              | a :: b :: c :: d :: s =>
                  match hex4 a b c d with
                  | none => none
                  | some hi =>
                      match s with
                      | 92 :: 117 :: a' :: b' :: c' :: d' :: s' =>
                          match hex4 a' b' c' d' with
                          | none => none
                          | some lo =>
                              if 0xD800 ≤ hi ∧ hi < 0xDC00 ∧ 0xDC00 ≤ lo ∧ lo < 0xE000 then
                                (scanString s').map fun r =>
                                  ((0x10000 + (hi - 0xD800) * 1024 + (lo - 0xDC00)) :: r.1, r.2)
                              else (scanString (92 :: 117 :: a' :: b' :: c' :: d' :: s')).map
                                fun r => (hi :: r.1, r.2)
                      | s => (scanString s).map fun r => (hi :: r.1, r.2)
              | _ => none
            else
              match simpleEscape e with
              | none => none
              | some x => (scanString s).map fun r => (x :: r.1, r.2)
      else if c < 32 then none
      else (scanString s).map fun r => (c :: r.1, r.2)

attribute [grind =] scanString

/-- `text.startswith(p)`, with what follows. -/
def stripText : PyStr → PyStr → Option PyStr
  | [], s => some s
  | _ :: _, [] => none
  | a :: p, b :: s => if a = b then stripText p s else none

/-! ## Values -/

/-- The constants and numbers: everything that is neither a string nor a container. -/
def parseScalar [PyFloat F] (s : PyStr) : Except LoadsError (Json F × PyStr) :=
  match stripText (py "null") s, stripText (py "true") s, stripText (py "false") s with
  | some r, _, _ => .ok (.null, r)
  | _, some r, _ => .ok (.bool true, r)
  | _, _, some r => .ok (.bool false, r)
  | _, _, _ =>
      match lexNumber s with
      | some t => t.value.map (·, t.rest)
      | none =>
          match stripText (py "NaN") s, stripText (py "Infinity") s,
              stripText (py "-Infinity") s with
          | some r, _, _ => .ok (.float PyFloat.nan, r)
          | _, some r, _ => .ok (.float PyFloat.inf, r)
          | _, _, some r => .ok (.float PyFloat.negInf, r)
          | _, _, _ => .error .jsonDecodeError

section Parse

variable [PyFloat F]

mutual

/-- `scan_once`: one value at the head of the text. `fuel` bounds the recursion; twice the length
    of the text is always enough. -/
def parseValue : Nat → PyStr → Except LoadsError (Json F × PyStr)
  | 0, _ => .error .jsonDecodeError
  | _ + 1, [] => .error .jsonDecodeError
  | fuel + 1, c :: s =>
      if c = 34 then
        match scanString s with
        | some (t, r) => .ok (.str t, r)
        | none => .error .jsonDecodeError
      else if c = 91 then
        match skipWs s with
        | 93 :: r => .ok (.arr [], r)
        | s => (parseItems fuel s).map fun p => (.arr p.1, p.2)
      else if c = 123 then
        match skipWs s with
        | 125 :: r => .ok (.obj [], r)
        | s => (parseMembers fuel s).map fun p => (.obj (dictOf p.1), p.2)
      else parseScalar (c :: s)

/-- The items of a non-empty array, up to and including the closing bracket. -/
def parseItems : Nat → PyStr → Except LoadsError (List (Json F) × PyStr)
  | 0, _ => .error .jsonDecodeError
  | fuel + 1, s =>
      match parseValue fuel s with
      | .error e => .error e
      | .ok (v, r) =>
          match skipWs r with
          | 93 :: r => .ok ([v], r)
          | 44 :: r => (parseItems fuel (skipWs r)).map fun p => (v :: p.1, p.2)
          | _ => .error .jsonDecodeError

/-- The members of a non-empty object, up to and including the closing brace. -/
def parseMembers : Nat → PyStr → Except LoadsError (List (PyStr × Json F) × PyStr)
  | 0, _ => .error .jsonDecodeError
  | fuel + 1, s =>
      match s with
      | 34 :: s =>
          match scanString s with
          | none => .error .jsonDecodeError
          | some (k, r) =>
              match skipWs r with
              | 58 :: r =>
                  match parseValue fuel (skipWs r) with
                  | .error e => .error e
                  | .ok (v, r) =>
                      match skipWs r with
                      | 125 :: r => .ok ([(k, v)], r)
                      | 44 :: r => (parseMembers fuel (skipWs r)).map fun p => ((k, v) :: p.1, p.2)
                      | _ => .error .jsonDecodeError
              | _ => .error .jsonDecodeError
      | _ => .error .jsonDecodeError

end

attribute [grind =] parseValue parseItems parseMembers

/-- `json.loads`: one value, white space around it, nothing else. -/
def loads (s : PyStr) : Except LoadsError (Json F) :=
  match parseValue (2 * s.length + 2) (skipWs s) with
  | .error e => .error e
  | .ok (v, r) => if skipWs r = [] then .ok v else .error .jsonDecodeError

end Parse

/-! ## One step of the parser

What the parser does between two values, as functions of the text and of the parser of what comes
next. The proofs about the three parsers go by these equations. -/

/-- What follows a value inside a container. -/
inductive Sequel where
  | closes (rest : PyStr)
  | goesOn (rest : PyStr)
  | neither

/-- The closing character, or a comma and the text of what comes next. -/
def sequel (close : Nat) (s : PyStr) : Sequel :=
  match skipWs s with
  | [] => .neither
  | c :: r => if c = close then .closes r else if c = 44 then .goesOn (skipWs r) else .neither

/-- The rest of a container after the value `x`. -/
def afterValue {ε α : Type} (fail : ε) (close : Nat) (x : α) (s : PyStr)
    (more : PyStr → Except ε (List α × PyStr)) : Except ε (List α × PyStr) :=
  match sequel close s with
  | .closes r => .ok ([x], r)
  | .goesOn r => (more r).map fun p => (x :: p.1, p.2)
  | .neither => .error fail

/-- A container after its opening character. -/
def container {ε α β : Type} (close : Nat) (build : List α → β) (s : PyStr)
    (more : PyStr → Except ε (List α × PyStr)) : Except ε (β × PyStr) :=
  match skipWs s with
  | [] => (more []).map fun p => (build p.1, p.2)
  | c :: r =>
      if c = close then .ok (build [], r) else (more (c :: r)).map fun p => (build p.1, p.2)

/-- The key of a member and the text of its value. -/
def memberKey : PyStr → Option (PyStr × PyStr)
  | [] => none
  | c :: s =>
      if c = 34 then
        (scanString s).bind fun p =>
          if (skipWs p.2).head? = some 58 then some (p.1, skipWs (skipWs p.2).tail) else none
      else none

theorem sequel_closes_iff {close : Nat} {s r : PyStr} :
    sequel close s = .closes r ↔ skipWs s = close :: r := by
  unfold sequel
  cases skipWs s with
  | nil => exact ⟨nofun, nofun⟩
  | cons c t =>
      dsimp only
      split_ifs with hclose hcomma
      · subst hclose
        simp
      · simp [hclose]
      · simp [hclose]

theorem sequel_goesOn_iff {close : Nat} (hclose : close ≠ 44) {s t : PyStr} :
    sequel close s = .goesOn t ↔ ∃ r, skipWs s = 44 :: r ∧ t = skipWs r := by
  unfold sequel
  cases skipWs s with
  | nil => exact ⟨nofun, fun ⟨_, h, _⟩ => nomatch h⟩
  | cons c r =>
      dsimp only
      split_ifs with hc hcomma
      · subst hc
        simp [hclose]
      · subst hcomma
        simp [eq_comm]
      · simp [hcomma]

section Following

variable {ε α β : Type} {fail : ε} {close : Nat} {x : α} {s r : PyStr}
  {more : PyStr → Except ε (List α × PyStr)} {build : List α → β}

theorem afterValue_items :
    (match skipWs s with
      | 93 :: r => .ok ([x], r)
      | 44 :: r => (more (skipWs r)).map fun p => (x :: p.1, p.2)
      | _ => .error fail) = afterValue fail 93 x s more := by
  unfold afterValue sequel
  cases skipWs s with
  | nil => rfl
  | cons c r =>
      by_cases hclose : c = 93
      · subst hclose
        rfl
      · by_cases hcomma : c = 44
        · subst hcomma
          rfl
        · simp [hclose, hcomma]

theorem afterValue_members :
    (match skipWs s with
      | 125 :: r => .ok ([x], r)
      | 44 :: r => (more (skipWs r)).map fun p => (x :: p.1, p.2)
      | _ => .error fail) = afterValue fail 125 x s more := by
  unfold afterValue sequel
  cases skipWs s with
  | nil => rfl
  | cons c r =>
      by_cases hclose : c = 125
      · subst hclose
        rfl
      · by_cases hcomma : c = 44
        · subst hcomma
          rfl
        · simp [hclose, hcomma]

/-- How a container ends well after a value: it closes there, or it goes on and ends well later. -/
theorem afterValue_ok {xs : List α} (h : afterValue fail close x s more = .ok (xs, r)) :
    sequel close s = .closes r ∧ xs = [x] ∨
      ∃ t ys, sequel close s = .goesOn t ∧ more t = .ok (ys, r) ∧ xs = x :: ys := by
  unfold afterValue at h
  cases hs : sequel close s with
  | closes r' =>
      rw [hs] at h
      cases h
      exact .inl ⟨rfl, rfl⟩
  | goesOn t =>
      rw [hs] at h
      obtain ⟨⟨ys, r'⟩, hmore, heq⟩ := map_eq_ok h
      cases heq
      exact .inr ⟨t, ys, rfl, hmore, rfl⟩
  | neither =>
      rw [hs] at h
      cases h

theorem afterValue_closes (h : skipWs s = close :: r) :
    afterValue fail close x s more = .ok ([x], r) := by
  rw [afterValue, sequel_closes_iff.2 h]

theorem afterValue_goesOn {t : PyStr} {ys : List α} (hclose : close ≠ 44) (h : skipWs s = 44 :: t)
    (hmore : more (skipWs t) = .ok (ys, r)) :
    afterValue fail close x s more = .ok (x :: ys, r) := by
  rw [afterValue, (sequel_goesOn_iff hclose).2 ⟨t, h, rfl⟩]
  dsimp only
  rw [hmore]
  rfl

theorem afterValue_error_iff {e : ε} (he : e ≠ fail) :
    afterValue fail close x s more = .error e ↔ ∃ t, sequel close s = .goesOn t ∧ more t = .error e := by
  unfold afterValue
  cases sequel close s with
  | closes r' => exact ⟨nofun, fun ⟨_, h, _⟩ => nomatch h⟩
  | goesOn t => simp [map_error_iff]
  | neither => simp [he.symm]

theorem container_ok {v : β} (h : container close build s more = .ok (v, r)) :
    skipWs s = close :: r ∧ v = build [] ∨ ∃ xs, more (skipWs s) = .ok (xs, r) ∧ v = build xs := by
  unfold container at h
  cases hs : skipWs s with
  | nil =>
      rw [hs] at h
      obtain ⟨⟨xs, r'⟩, hmore, heq⟩ := map_eq_ok h
      cases heq
      exact .inr ⟨xs, hmore, rfl⟩
  | cons c t =>
      rw [hs] at h
      dsimp only at h
      split_ifs at h with hc
      · cases h
        exact .inl ⟨by rw [hc], rfl⟩
      · obtain ⟨⟨xs, r'⟩, hmore, heq⟩ := map_eq_ok h
        cases heq
        exact .inr ⟨xs, hmore, rfl⟩

theorem container_of_more {xs : List α} (hne : (skipWs s).head? ≠ some close)
    (hmore : more (skipWs s) = .ok (xs, r)) :
    container close build s more = .ok (build xs, r) := by
  unfold container
  cases hs : skipWs s with
  | nil =>
      rw [hs] at hmore
      dsimp only
      rw [hmore]
      rfl
  | cons c t =>
      rw [hs] at hne hmore
      dsimp only
      rw [if_neg fun hc => hne (by rw [hc, List.head?_cons]), hmore]
      rfl

theorem container_error_iff {e : ε} :
    container close build s more = .error e ↔
      (skipWs s).head? ≠ some close ∧ more (skipWs s) = .error e := by
  unfold container
  cases skipWs s with
  | nil => simp [map_error_iff]
  | cons c t =>
      dsimp only
      split_ifs with hc
      · simp [hc]
      · simp [hc, map_error_iff]

end Following

theorem memberKey_iff {s k t : PyStr} :
    memberKey s = some (k, t) ↔
      ∃ q r r', s = 34 :: q ∧ scanString q = some (k, r) ∧ skipWs r = 58 :: r' ∧ t = skipWs r' := by
  cases s with
  | nil => exact ⟨nofun, fun ⟨_, _, _, h, _⟩ => nomatch h⟩
  | cons c q =>
      rw [memberKey]
      split_ifs with hquote
      · subst hquote
        constructor
        · intro h
          obtain ⟨⟨k', r⟩, hk, h⟩ := Option.bind_eq_some_iff.1 h
          dsimp only at h
          split_ifs at h with hcolon
          obtain ⟨r', hr⟩ := List.head?_eq_some_iff.1 hcolon
          cases h
          exact ⟨q, r, r', rfl, hk, hr, by rw [hr, List.tail_cons]⟩
        · rintro ⟨q', r, r', hq, hk, hr, rfl⟩
          cases hq
          rw [hk, Option.bind_some, hr, List.head?_cons, if_pos rfl, List.tail_cons]
      · refine iff_of_false nofun ?_
        rintro ⟨_, _, _, hq, -⟩
        exact hquote (List.cons.inj hq).1

section Steps

variable [PyFloat F]

theorem parseValue_cons (fuel c : Nat) (s : PyStr) :
    parseValue (F := F) (fuel + 1) (c :: s) =
      if c = 34 then
        (scanString s).elim (.error .jsonDecodeError) fun p => .ok (.str p.1, p.2)
      else if c = 91 then container 93 .arr s (parseItems fuel)
      else if c = 123 then container 125 (fun kvs => .obj (dictOf kvs)) s (parseMembers fuel)
      else parseScalar (c :: s) := by
  rw [parseValue]
  split_ifs with hstr harr hobj
  · cases scanString s <;> rfl
  · unfold container
    cases skipWs s with
    | nil => rfl
    | cons c r =>
        by_cases hc : c = 93
        · subst hc
          rfl
        · simp [hc]
  · unfold container
    cases skipWs s with
    | nil => rfl
    | cons c r =>
        by_cases hc : c = 125
        · subst hc
          rfl
        · simp [hc]
  · rfl

theorem parseItems_succ (fuel : Nat) (s : PyStr) :
    parseItems (F := F) (fuel + 1) s =
      parseValue fuel s >>= fun p => afterValue .jsonDecodeError 93 p.1 p.2 (parseItems fuel) := by
  rw [parseItems]
  cases parseValue (F := F) fuel s with
  | error e => rfl
  | ok p => exact afterValue_items

theorem parseMembers_succ (fuel : Nat) (s : PyStr) :
    parseMembers (F := F) (fuel + 1) s =
      (memberKey s).elim (.error .jsonDecodeError) fun m =>
        parseValue fuel m.2 >>= fun p =>
          afterValue .jsonDecodeError 125 (m.1, p.1) p.2 (parseMembers fuel) := by
  cases s with
  | nil => rfl
  | cons c q =>
    by_cases hquote : c = 34
    · subst hquote
      rw [parseMembers]
      cases hk : scanString q with
      | none => simp [memberKey, hk]
      | some p =>
        obtain ⟨k, r⟩ := p
        cases hr : skipWs r with
        | nil => simp [memberKey, hk, hr]
        | cons c r' =>
          by_cases hcolon : c = 58
          · subst hcolon
            rw [memberKey_iff.2 ⟨q, r, r', rfl, hk, hr, rfl⟩]
            simp only [hr, Option.elim_some]
            cases parseValue (F := F) fuel (skipWs r') with
            | error e => rfl
            | ok p => exact afterValue_members
          · simp [memberKey, hk, hr, hcolon]
    · simp [parseMembers, memberKey, hquote]

end Steps

end Elyra.Python
