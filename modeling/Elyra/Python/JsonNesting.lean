import Elyra.Python.JsonSuffix
import Elyra.Python.Raising

set_option autoImplicit false

/-! # `json.loads` with a limit on nesting

The scanner calls itself for every array and object, and raises `RecursionError` where the interpreter
allows no further call. `loadsWithin limit` is `loads` with room for `limit` containers inside each
other. Which texts make it raise something else than `JSONDecodeError` is said by the places that a scan
comes to (`Comes`): `ValueError` where an integer literal beyond the digit limit is, `RecursionError`
where a container opens and there is no room for it. -/

namespace Elyra.Python

variable {F : Type}

/-- The exceptions `json.loads` raises. -/
inductive ScanError where
  | jsonDecodeError
  | valueError
  | recursionError
  deriving DecidableEq, Repr

def LoadsError.scanError : LoadsError → ScanError
  | .jsonDecodeError => .jsonDecodeError
  | .valueError => .valueError

/-! ## The scanner -/

section Scan

variable [PyFloat F]

mutual

/-- `scan_once`, with room for `room` containers. -/
def scanValue : Nat → Nat → PyStr → Except ScanError (Json F × PyStr)
  | 0, _, _ => .error .jsonDecodeError
  | _ + 1, _, [] => .error .jsonDecodeError
  | fuel + 1, room, c :: s =>
      if c = 34 then
        match scanString s with
        | some (t, r) => .ok (.str t, r)
        | none => .error .jsonDecodeError
      else if c = 91 then
        match room with
        | 0 => .error .recursionError
        | room + 1 =>
            match skipWs s with
            | 93 :: r => .ok (.arr [], r)
            | s => (scanItems fuel room s).map fun p => (.arr p.1, p.2)
      else if c = 123 then
        match room with
        | 0 => .error .recursionError
        | room + 1 =>
            match skipWs s with
            | 125 :: r => .ok (.obj [], r)
            | s => (scanMembers fuel room s).map fun p => (.obj (dictOf p.1), p.2)
      else (parseScalar (c :: s)).mapError LoadsError.scanError

/-- The items of a non-empty array, up to and including the closing bracket. -/
def scanItems : Nat → Nat → PyStr → Except ScanError (List (Json F) × PyStr)
  | 0, _, _ => .error .jsonDecodeError
  | fuel + 1, room, s =>
      match scanValue fuel room s with
      | .error e => .error e
      | .ok (v, r) =>
          match skipWs r with
          | 93 :: r => .ok ([v], r)
          | 44 :: r => (scanItems fuel room (skipWs r)).map fun p => (v :: p.1, p.2)
          | _ => .error .jsonDecodeError

/-- The members of a non-empty object, up to and including the closing brace. -/
def scanMembers : Nat → Nat → PyStr → Except ScanError (List (PyStr × Json F) × PyStr)
  | 0, _, _ => .error .jsonDecodeError
  | fuel + 1, room, s =>
      match s with
      | 34 :: s =>
          match scanString s with
          | none => .error .jsonDecodeError
          | some (k, r) =>
              match skipWs r with
              | 58 :: r =>
                  match scanValue fuel room (skipWs r) with
                  | .error e => .error e
                  | .ok (v, r) =>
                      match skipWs r with
                      | 125 :: r => .ok ([(k, v)], r)
                      | 44 :: r =>
                          (scanMembers fuel room (skipWs r)).map fun p => ((k, v) :: p.1, p.2)
                      | _ => .error .jsonDecodeError
              | _ => .error .jsonDecodeError
      | _ => .error .jsonDecodeError

end

attribute [grind =] scanValue scanItems scanMembers

/-- `json.loads` where at most `limit` containers may be inside each other. -/
def loadsWithin (limit : Nat) (s : PyStr) : Except ScanError (Json F) :=
  match scanValue (2 * s.length + 2) limit (skipWs s) with
  | .error e => .error e
  | .ok (v, r) => if skipWs r = [] then .ok v else .error .jsonDecodeError

/-! ## Where a scan fails -/

/-- An integer literal beyond the digit limit. -/
def LongInt (s : PyStr) : Prop :=
  ∃ t, lexNumber s = some t ∧ t.frac = [] ∧ t.exp = [] ∧ maxStrDigits < t.lead.length

/-- The opening bracket of an array or the opening brace of an object. -/
def Opens (s : PyStr) : Prop := s.head? = some 91 ∨ s.head? = some 123

/-- A value that the scanner refuses for its limits, with room for that many containers. -/
inductive Refused : Nat → PyStr → ScanError → Prop
  | long {room : Nat} {s : PyStr} (h : LongInt s) : Refused room s .valueError
  | deep {s : PyStr} (h : Opens s) : Refused 0 s .recursionError

omit [PyFloat F] in
theorem LongInt.head {s : PyStr} (h : LongInt s) :
    ∃ c r, s = c :: r ∧ (isDigit c = true ∨ c = 45) := by
  obtain ⟨t, ht, -⟩ := h
  cases s with
  | nil => exact nomatch ht
  | cons c s =>
      refine ⟨c, s, rfl, ?_⟩
      by_cases hc : c = 45
      · exact .inr hc
      · simp only [lexNumber, if_neg hc, lexUnsigned, lexNat] at ht
        left
        simp only [isDigit, Bool.and_eq_true, decide_eq_true_eq]
        split_ifs at ht with h48 h49
        · omega
        · omega

theorem stripText_head {p s r : PyStr} {a : Nat} (h : stripText (a :: p) s = some r) :
    s.head? = some a := by
  rw [stripText_split h]
  rfl

/-- The scalars meet one limit, the one on digits. -/
theorem parseScalar_error_iff {s : PyStr} {e : LoadsError} (he : e ≠ .jsonDecodeError) :
    parseScalar (F := F) s = .error e ↔ LongInt s ∧ e = .valueError := by
  constructor
  · intro h
    unfold parseScalar at h
    split at h
    · cases h
    · cases h
    · cases h
    · split at h
      · next t ht =>
        cases hv : t.value (F := F) with
        | ok v =>
            rw [hv] at h
            cases h
        | error e' =>
            rw [hv] at h
            cases h
            unfold NumberToken.value at hv
            split_ifs at hv with hint hlong
            cases hv
            exact ⟨⟨t, ht, hint.1, hint.2, hlong⟩, rfl⟩
      · split at h
        · cases h
        · cases h
        · cases h
        · cases h
          exact absurd rfl he
  · rintro ⟨hlong, rfl⟩
    obtain ⟨c, r, rfl, hc⟩ := hlong.head
    obtain ⟨t, ht, hfrac, hexp, hlen⟩ := hlong
    have hword : ∀ {a : Nat} {p : PyStr}, a = 110 ∨ a = 116 ∨ a = 102 →
        stripText (a :: p) (c :: r) = none := by
      intro a p ha
      cases hs : stripText (a :: p) (c :: r) with
      | none => rfl
      | some r' =>
          obtain rfl : c = a := Option.some.inj (stripText_head hs)
          simp only [isDigit, Bool.and_eq_true, decide_eq_true_eq] at hc
          omega
    have hnull : stripText (py "null") (c :: r) = none := hword (.inl rfl)
    have htrue : stripText (py "true") (c :: r) = none := hword (.inr (.inl rfl))
    have hfalse : stripText (py "false") (c :: r) = none := hword (.inr (.inr rfl))
    simp only [parseScalar, hnull, htrue, hfalse, ht, NumberToken.value, hfrac, hexp, and_self,
      if_true, if_pos hlen]
    rfl

variable {fuel room : Nat} {s : PyStr} {e : ScanError}

/-! ## One step of the scanner -/

omit [PyFloat F] in
theorem LongInt.ne {c : Nat} {s : PyStr} (h : LongInt (c :: s)) : c ≠ 34 ∧ c ≠ 91 ∧ c ≠ 123 := by
  obtain ⟨_, _, heq, hc⟩ := h.head
  cases heq
  simp only [isDigit, Bool.and_eq_true, decide_eq_true_eq] at hc
  omega

/-- A container where there is room for it. -/
def within {α : Type} (room : Nat) (inner : Nat → Except ScanError α) : Except ScanError α :=
  match room with
  | 0 => .error .recursionError
  | room + 1 => inner room

theorem scanValue_cons (fuel room c : Nat) (s : PyStr) :
    scanValue (F := F) (fuel + 1) room (c :: s) =
      if c = 34 then
        (scanString s).elim (.error .jsonDecodeError) fun p => .ok (.str p.1, p.2)
      else if c = 91 then within room fun room => container 93 .arr s (scanItems fuel room)
      else if c = 123 then
        within room fun room => container 125 (fun kvs => .obj (dictOf kvs)) s (scanMembers fuel room)
      else (parseScalar (c :: s)).mapError LoadsError.scanError := by
  simp only [scanValue]
  split_ifs with hstr harr hobj
  · cases scanString s <;> rfl
  · cases room with
    | zero => rfl
    | succ room =>
        show _ = container 93 Json.arr s (scanItems fuel room)
        unfold container
        cases skipWs s with
        | nil => rfl
        | cons c r =>
            by_cases hc : c = 93
            · subst hc
              rfl
            · simp [hc]
  · cases room with
    | zero => rfl
    | succ room =>
        show _ = container 125 (fun kvs => Json.obj (dictOf kvs)) s (scanMembers fuel room)
        unfold container
        cases skipWs s with
        | nil => rfl
        | cons c r =>
            by_cases hc : c = 125
            · subst hc
              rfl
            · simp [hc]
  · rfl

theorem scanItems_succ (fuel room : Nat) (s : PyStr) :
    scanItems (F := F) (fuel + 1) room s =
      scanValue fuel room s >>= fun p =>
        afterValue .jsonDecodeError 93 p.1 p.2 (scanItems fuel room) := by
  rw [scanItems]
  cases scanValue (F := F) fuel room s with
  | error e => rfl
  | ok p => exact afterValue_items

theorem scanMembers_succ (fuel room : Nat) (s : PyStr) :
    scanMembers (F := F) (fuel + 1) room s =
      (memberKey s).elim (.error .jsonDecodeError) fun m =>
        scanValue fuel room m.2 >>= fun p =>
          afterValue .jsonDecodeError 125 (m.1, p.1) p.2 (scanMembers fuel room) := by
  cases s with
  | nil => rfl
  | cons c q =>
    by_cases hquote : c = 34
    · subst hquote
      rw [scanMembers]
      cases hk : scanString q with
      | none => simp [memberKey, hk]
      | some p =>
        obtain ⟨k, r⟩ := p
        cases hr : skipWs r with
        | nil => simp [memberKey, hk, hr]
        | cons c r' =>
          by_cases hcolon : c = 58
          · subst hcolon
            rw [memberKey_iff.2 ⟨q, r, r', rfl, hk, hr, rfl⟩]
            simp only [hr, Option.elim_some]
            cases scanValue (F := F) fuel room (skipWs r') with
            | error e => rfl
            | ok p => exact afterValue_members
          · simp [memberKey, hk, hr, hcolon]
    · simp [scanMembers, memberKey, hquote]

/-- How an array's items fail: the first one does, or those after it do. -/
theorem scanItems_error_iff (he : e ≠ .jsonDecodeError) :
    scanItems (F := F) (fuel + 1) room s = .error e ↔
      scanValue (F := F) fuel room s = .error e ∨
        ∃ (v : Json F) (r r' : PyStr), scanValue fuel room s = .ok (v, r) ∧ skipWs r = 44 :: r' ∧
          scanItems (F := F) fuel room (skipWs r') = .error e := by
  rw [scanItems_succ, bind_error]
  refine or_congr_right ⟨?_, ?_⟩
  · rintro ⟨⟨v, r⟩, hv, h⟩
    obtain ⟨t, hnext, h⟩ := (afterValue_error_iff he).1 h
    obtain ⟨r', hr, rfl⟩ := (sequel_goesOn_iff (by decide)).1 hnext
    exact ⟨v, r, r', hv, hr, h⟩
  · rintro ⟨v, r, r', hv, hr, h⟩
    exact ⟨(v, r), hv, (afterValue_error_iff he).2
      ⟨skipWs r', (sequel_goesOn_iff (by decide)).2 ⟨r', hr, rfl⟩, h⟩⟩

/-- The value of the member at the head of a text. -/
inductive MemberValue : PyStr → PyStr → Prop
  | mk {q k r r' : PyStr} (hk : scanString q = some (k, r)) (hr : skipWs r = 58 :: r') :
      MemberValue (34 :: q) (skipWs r')

omit [PyFloat F] in
theorem memberValue_iff {t : PyStr} : MemberValue s t ↔ ∃ k, memberKey s = some (k, t) := by
  constructor
  · rintro ⟨hk, hr⟩
    exact ⟨_, memberKey_iff.2 ⟨_, _, _, rfl, hk, hr, rfl⟩⟩
  · rintro ⟨k, h⟩
    obtain ⟨q, r, r', rfl, hk, hr, rfl⟩ := memberKey_iff.1 h
    exact ⟨hk, hr⟩

theorem scanMembers_error_iff (he : e ≠ .jsonDecodeError) :
    scanMembers (F := F) (fuel + 1) room s = .error e ↔
      ∃ t, MemberValue s t ∧ (scanValue (F := F) fuel room t = .error e ∨
        ∃ (v : Json F) (r r' : PyStr), scanValue fuel room t = .ok (v, r) ∧ skipWs r = 44 :: r' ∧
          scanMembers (F := F) fuel room (skipWs r') = .error e) := by
  rw [scanMembers_succ]
  cases hkey : memberKey s with
  | none =>
      refine iff_of_false (fun h => he (Except.error.inj h).symm) ?_
      rintro ⟨t, ht, -⟩
      obtain ⟨k, hk⟩ := memberValue_iff.1 ht
      exact nomatch hkey.symm.trans hk
  | some m =>
      obtain ⟨k, t⟩ := m
      rw [Option.elim_some, bind_error]
      constructor
      · intro h
        refine ⟨t, memberValue_iff.2 ⟨k, hkey⟩, h.imp_right ?_⟩
        rintro ⟨⟨v, r⟩, hv, h⟩
        obtain ⟨t', hnext, h⟩ := (afterValue_error_iff he).1 h
        obtain ⟨r', hr, rfl⟩ := (sequel_goesOn_iff (by decide)).1 hnext
        exact ⟨v, r, r', hv, hr, h⟩
      · rintro ⟨t', ht, h⟩
        obtain ⟨k', hk⟩ := memberValue_iff.1 ht
        obtain ⟨rfl, rfl⟩ := Prod.mk.inj (Option.some.inj (hkey.symm.trans hk))
        refine h.imp_right ?_
        rintro ⟨v, r, r', hv, hr, h⟩
        exact ⟨(v, r), hv, (afterValue_error_iff he).2
          ⟨skipWs r', (sequel_goesOn_iff (by decide)).2 ⟨r', hr, rfl⟩, h⟩⟩

theorem within_error_iff {α : Type} {inner : Nat → Except ScanError α} :
    within room inner = .error e ↔
      room = 0 ∧ e = .recursionError ∨ ∃ n, room = n + 1 ∧ inner n = .error e := by
  cases room with
  | zero => simp [within, eq_comm]
  | succ room => simp [within]

/-- How a value fails: it is refused itself, or it is a container and something inside it fails. -/
theorem scanValue_error_iff (he : e ≠ .jsonDecodeError) :
    scanValue (F := F) (fuel + 1) room s = .error e ↔
      Refused room s e ∨
        (∃ n t, room = n + 1 ∧ s = 91 :: t ∧ (skipWs t).head? ≠ some 93 ∧
          scanItems (F := F) fuel n (skipWs t) = .error e) ∨
        ∃ n t, room = n + 1 ∧ s = 123 :: t ∧ (skipWs t).head? ≠ some 125 ∧
          scanMembers (F := F) fuel n (skipWs t) = .error e := by
  constructor
  · intro h
    cases s with
    | nil => exact absurd (Except.error.inj h).symm he
    | cons c t =>
      rw [scanValue_cons] at h
      split_ifs at h with h34 h91 h123
      · cases hk : scanString t with
        | none =>
            rw [hk] at h
            exact absurd (Except.error.inj h).symm he
        | some p =>
            rw [hk] at h
            cases h
      · subst h91
        rcases within_error_iff.1 h with ⟨rfl, rfl⟩ | ⟨n, rfl, hin⟩
        · exact .inl (.deep (.inl rfl))
        · obtain ⟨hne, h⟩ := container_error_iff.1 hin
          exact .inr (.inl ⟨n, t, rfl, rfl, hne, h⟩)
      · subst h123
        rcases within_error_iff.1 h with ⟨rfl, rfl⟩ | ⟨n, rfl, hin⟩
        · exact .inl (.deep (.inr rfl))
        · obtain ⟨hne, h⟩ := container_error_iff.1 hin
          exact .inr (.inr ⟨n, t, rfl, rfl, hne, h⟩)
      · cases hscalar : parseScalar (F := F) (c :: t) with
        | ok p =>
            rw [hscalar] at h
            cases h
        | error e' =>
            rw [hscalar] at h
            cases h
            have he' : e' ≠ .jsonDecodeError := by
              rintro rfl
              exact he rfl
            obtain ⟨hlong, rfl⟩ := (parseScalar_error_iff he').1 hscalar
            exact .inl (.long hlong)
  · rintro (h | ⟨n, t, rfl, rfl, hne, h⟩ | ⟨n, t, rfl, rfl, hne, h⟩)
    · cases h with
      | long hlong =>
          have hscalar := (parseScalar_error_iff (F := F) (by simp)).2 ⟨hlong, rfl⟩
          obtain ⟨c, r, rfl, -⟩ := hlong.head
          obtain ⟨h34, h91, h123⟩ := hlong.ne
          rw [scanValue_cons, if_neg h34, if_neg h91, if_neg h123, hscalar]
          rfl
      | deep hopens =>
          rcases hopens with hopens | hopens
          · obtain ⟨t, rfl⟩ := List.head?_eq_some_iff.1 hopens
            rfl
          · obtain ⟨t, rfl⟩ := List.head?_eq_some_iff.1 hopens
            rfl
    · rw [scanValue_cons, if_neg (by decide), if_pos rfl]
      exact within_error_iff.2 (.inr ⟨n, rfl, container_error_iff.2 ⟨hne, h⟩⟩)
    · rw [scanValue_cons, if_neg (by decide), if_neg (by decide), if_pos rfl]
      exact within_error_iff.2 (.inr ⟨n, rfl, container_error_iff.2 ⟨hne, h⟩⟩)

/-! ## More fuel -/

/-- The same result, unless the first has run out of fuel. -/
def Better {α : Type} (x y : Except ScanError α) : Prop := x = .error .jsonDecodeError ∨ x = y

theorem Better.map {α β : Type} {x y : Except ScanError α} (f : α → β) (h : Better x y) :
    Better (x.map f) (y.map f) := by
  rcases h with rfl | rfl
  · exact .inl rfl
  · exact .inr rfl

theorem Better.bind {α β : Type} {x y : Except ScanError α} {f g : α → Except ScanError β}
    (h : Better x y) (hfg : ∀ a, Better (f a) (g a)) : Better (x >>= f) (y >>= g) := by
  rcases h with rfl | rfl
  · exact .inl rfl
  · cases x with
    | error e => exact .inr rfl
    | ok a => exact hfg a

theorem better_afterValue {α : Type} {f g : PyStr → Except ScanError (List α × PyStr)}
    (h : ∀ t, Better (f t) (g t)) (close : Nat) (x : α) (s : PyStr) :
    Better (afterValue .jsonDecodeError close x s f) (afterValue .jsonDecodeError close x s g) := by
  unfold afterValue
  cases sequel close s with
  | closes r => exact .inr rfl
  | goesOn t => exact (h t).map _
  | neither => exact .inl rfl

theorem better_container {α β : Type} {f g : PyStr → Except ScanError (List α × PyStr)}
    (h : ∀ t, Better (f t) (g t)) (close : Nat) (build : List α → β) (s : PyStr) :
    Better (container close build s f) (container close build s g) := by
  unfold container
  cases skipWs s with
  | nil => exact (h []).map _
  | cons c r =>
      dsimp only
      split_ifs
      · exact .inr rfl
      · exact (h (c :: r)).map _

theorem better_within {α : Type} {f g : Nat → Except ScanError α} (h : ∀ n, Better (f n) (g n))
    (room : Nat) : Better (within room f) (within room g) := by
  cases room with
  | zero => exact .inr rfl
  | succ n => exact h n

/-- What the scanner finds with some fuel it finds with more. -/
structure Grows (F : Type) [PyFloat F] (fuel : Nat) : Prop where
  value : ∀ room s, Better (scanValue (F := F) fuel room s) (scanValue (fuel + 1) room s)
  items : ∀ room s, Better (scanItems (F := F) fuel room s) (scanItems (fuel + 1) room s)
  members : ∀ room s, Better (scanMembers (F := F) fuel room s) (scanMembers (fuel + 1) room s)

theorem grows (fuel : Nat) : Grows F fuel := by
  induction fuel with
  | zero => exact ⟨fun _ _ => .inl rfl, fun _ _ => .inl rfl, fun _ _ => .inl rfl⟩
  | succ fuel ih =>
      refine ⟨fun room s => ?_, fun room s => ?_, fun room s => ?_⟩
      · cases s with
        | nil => exact .inl rfl
        | cons c s =>
            rw [scanValue_cons, scanValue_cons]
            split_ifs
            · exact .inr rfl
            · exact better_within (fun n => better_container (ih.items n) ..) room
            · exact better_within (fun n => better_container (ih.members n) ..) room
            · exact .inr rfl
      · rw [scanItems_succ, scanItems_succ]
        exact (ih.value room s).bind fun p => better_afterValue (ih.items room) ..
      · rw [scanMembers_succ, scanMembers_succ]
        cases memberKey s with
        | none => exact .inl rfl
        | some m => exact (ih.value room m.2).bind fun p => better_afterValue (ih.members room) ..

/-- The result without a limit, unless there is no room. -/
def Roomy {α : Type} (x : Except ScanError α) (y : Except LoadsError α) : Prop :=
  x = .error .recursionError ∨ x = y.mapError LoadsError.scanError

theorem Roomy.map {α β : Type} {x : Except ScanError α} {y : Except LoadsError α} (f : α → β)
    (h : Roomy x y) : Roomy (x.map f) (y.map f) := by
  rcases h with rfl | rfl
  · exact .inl rfl
  · cases y <;> exact .inr rfl

theorem Roomy.ok {α : Type} {x : Except ScanError α} {y : Except LoadsError α} {a : α}
    (h : Roomy x y) (hx : x = .ok a) : y = .ok a := by
  rcases h with h | h
  · exact nomatch hx.symm.trans h
  · exact mapError_ok.1 (h.symm.trans hx)

theorem Roomy.bind {α β : Type} {x : Except ScanError α} {y : Except LoadsError α}
    {f : α → Except ScanError β} {g : α → Except LoadsError β} (h : Roomy x y)
    (hfg : ∀ a, Roomy (f a) (g a)) : Roomy (x >>= f) (y >>= g) := by
  rcases h with rfl | rfl
  · exact .inl rfl
  · cases y with
    | error e => exact .inr rfl
    | ok a => exact hfg a

theorem roomy_afterValue {α : Type} {f : PyStr → Except ScanError (List α × PyStr)}
    {g : PyStr → Except LoadsError (List α × PyStr)} (h : ∀ t, Roomy (f t) (g t)) (close : Nat) (x : α)
    (s : PyStr) :
    Roomy (afterValue .jsonDecodeError close x s f) (afterValue .jsonDecodeError close x s g) := by
  unfold afterValue
  cases sequel close s with
  | closes r => exact .inr rfl
  | goesOn t => exact (h t).map _
  | neither => exact .inr rfl

theorem roomy_container {α β : Type} {f : PyStr → Except ScanError (List α × PyStr)}
    {g : PyStr → Except LoadsError (List α × PyStr)} (h : ∀ t, Roomy (f t) (g t)) (close : Nat)
    (build : List α → β) (s : PyStr) : Roomy (container close build s f) (container close build s g) := by
  unfold container
  cases skipWs s with
  | nil => exact (h []).map _
  | cons c r =>
      dsimp only
      split_ifs
      · exact .inr rfl
      · exact (h (c :: r)).map _

theorem roomy_within {α : Type} {f : Nat → Except ScanError α} {y : Except LoadsError α}
    (h : ∀ n, Roomy (f n) y) (room : Nat) : Roomy (within room f) y := by
  cases room with
  | zero => exact .inl rfl
  | succ n => exact h n

/-- What the scanner finds, `parseValue` finds. -/
structure Agrees (F : Type) [PyFloat F] (fuel : Nat) : Prop where
  value : ∀ room s, Roomy (scanValue (F := F) fuel room s) (parseValue fuel s)
  items : ∀ room s, Roomy (scanItems (F := F) fuel room s) (parseItems fuel s)
  members : ∀ room s, Roomy (scanMembers (F := F) fuel room s) (parseMembers fuel s)

theorem agrees (fuel : Nat) : Agrees F fuel := by
  induction fuel with
  | zero => exact ⟨fun _ _ => .inr rfl, fun _ _ => .inr rfl, fun _ _ => .inr rfl⟩
  | succ fuel ih =>
      refine ⟨fun room s => ?_, fun room s => ?_, fun room s => ?_⟩
      · cases s with
        | nil => exact .inr rfl
        | cons c s =>
            rw [scanValue_cons, parseValue_cons]
            split_ifs
            · cases scanString s <;> exact .inr rfl
            · exact roomy_within (fun n => roomy_container (ih.items n) ..) room
            · exact roomy_within (fun n => roomy_container (ih.members n) ..) room
            · exact .inr rfl
      · rw [scanItems_succ, parseItems_succ]
        exact (ih.value room s).bind fun p => roomy_afterValue (ih.items room) ..
      · rw [scanMembers_succ, parseMembers_succ]
        cases memberKey s with
        | none => exact .inr rfl
        | some m => exact (ih.value room m.2).bind fun p => roomy_afterValue (ih.members room) ..

/-- **A limit that is not reached makes no difference.** -/
theorem loadsWithin_roomy (limit : Nat) (s : PyStr) :
    Roomy (loadsWithin (F := F) limit s) (loads s) := by
  unfold loadsWithin loads
  rcases (agrees (F := F) (2 * s.length + 2)).value limit (skipWs s) with h | h
  · rw [h]
    exact .inl rfl
  · rw [h]
    right
    cases parseValue (F := F) (2 * s.length + 2) (skipWs s) with
    | error e => rfl
    | ok p =>
        simp only [Except.mapError]
        split <;> rfl

theorem scanValue_rest {v : Json F} {r : PyStr} (h : scanValue fuel room s = .ok (v, r)) :
    r.length ≤ s.length := by
  obtain ⟨u, rfl, -⟩ := (consumed fuel).value (((agrees fuel).value _ _).ok h) 0
  rw [List.length_append]
  omega

theorem skipWs_length (s : PyStr) : (skipWs s).length ≤ s.length := by
  obtain ⟨ws, hs, -⟩ := skipWs_split s
  have := congrArg List.length hs
  rw [List.length_append] at this
  omega

omit [PyFloat F] in
theorem sequel_length {close : Nat} {s t : PyStr} (h : sequel close s = .goesOn t) :
    t.length < s.length := by
  have hlen := skipWs_length s
  unfold sequel at h
  cases hs : skipWs s with
  | nil =>
      rw [hs] at h
      cases h
  | cons c r =>
      rw [hs] at h hlen
      dsimp only at h
      split_ifs at h
      cases h
      have := skipWs_length r
      rw [List.length_cons] at hlen
      omega

omit [PyFloat F] in
theorem memberKey_length {s k t : PyStr} (h : memberKey s = some (k, t)) :
    t.length + 2 ≤ s.length := by
  obtain ⟨q, r, r', rfl, hk, hr, rfl⟩ := memberKey_iff.1 h
  have hq : r.length ≤ q.length := by
    obtain ⟨u, rfl, -⟩ := Reads.scanString hk 0
    rw [List.length_append]
    omega
  have hr₁ := skipWs_length r
  have hr₂ := skipWs_length r'
  rw [hr, List.length_cons] at hr₁
  rw [List.length_cons]
  omega

omit [PyFloat F] in
theorem afterValue_congr {ε α : Type} {fail : ε} {close : Nat} {x : α} {s : PyStr}
    {f g : PyStr → Except ε (List α × PyStr)} (h : ∀ t, t.length < s.length → f t = g t) :
    afterValue fail close x s f = afterValue fail close x s g := by
  unfold afterValue
  cases hs : sequel close s with
  | closes r => rfl
  | goesOn t =>
      dsimp only
      rw [h t (sequel_length hs)]
  | neither => rfl

omit [PyFloat F] in
theorem container_congr {ε α β : Type} {close : Nat} {build : List α → β} {s : PyStr}
    {f g : PyStr → Except ε (List α × PyStr)} (h : f (skipWs s) = g (skipWs s)) :
    container close build s f = container close build s g := by
  unfold container
  cases hs : skipWs s with
  | nil =>
      rw [hs] at h
      dsimp only
      rw [h]
  | cons c r =>
      rw [hs] at h
      dsimp only
      rw [h]

/-- Fuel for twice the text is enough. -/
structure Enough (F : Type) [PyFloat F] (fuel : Nat) : Prop where
  value : ∀ {room s}, 2 * s.length + 1 ≤ fuel →
    scanValue (F := F) (fuel + 1) room s = scanValue fuel room s
  items : ∀ {room s}, 2 * s.length + 2 ≤ fuel →
    scanItems (F := F) (fuel + 1) room s = scanItems fuel room s
  members : ∀ {room s}, 2 * s.length + 2 ≤ fuel →
    scanMembers (F := F) (fuel + 1) room s = scanMembers fuel room s

theorem enough (fuel : Nat) : Enough F fuel := by
  induction fuel with
  | zero => exact ⟨nofun, nofun, nofun⟩
  | succ fuel ih =>
      refine ⟨fun {room s} hf => ?_, fun {room s} hf => ?_, fun {room s} hf => ?_⟩
      · cases s with
        | nil => rfl
        | cons c s =>
            have hs := skipWs_length s
            rw [List.length_cons] at hf
            have hitems : ∀ n, container 93 Json.arr s (scanItems (F := F) (fuel + 1) n) =
                container 93 Json.arr s (scanItems fuel n) :=
              fun n => container_congr (ih.items (by omega))
            have hmembers : ∀ n, container 125 (fun kvs => Json.obj (dictOf kvs)) s
                (scanMembers (F := F) (fuel + 1) n) =
                container 125 (fun kvs => Json.obj (dictOf kvs)) s (scanMembers fuel n) :=
              fun n => container_congr (ih.members (by omega))
            rw [scanValue_cons, scanValue_cons]
            simp only [hitems, hmembers]
      · rw [scanItems_succ, scanItems_succ, ih.value (by omega)]
        cases hv : scanValue (F := F) fuel room s with
        | error e => rfl
        | ok p =>
            have hr := scanValue_rest (v := p.1) (r := p.2) hv
            exact afterValue_congr fun t ht => ih.items (by omega)
      · rw [scanMembers_succ, scanMembers_succ]
        cases hkey : memberKey s with
        | none => rfl
        | some m =>
            have hm := memberKey_length (k := m.1) (t := m.2) hkey
            rw [Option.elim_some, Option.elim_some, ih.value (by omega)]
            cases hv : scanValue (F := F) fuel room m.2 with
            | error e => rfl
            | ok p =>
                have hr := scanValue_rest (v := p.1) (r := p.2) hv
                exact afterValue_congr fun t ht => ih.members (by omega)

theorem Better.error {α : Type} {x y : Except ScanError α} (h : Better x y)
    (he : e ≠ .jsonDecodeError) (hx : x = .error e) : y = .error e := by
  rcases h with h | h
  · rw [hx] at h
    exact absurd (Except.error.inj h) he
  · exact h.symm.trans hx

theorem Better.ok {α : Type} {x y : Except ScanError α} {a : α} (h : Better x y)
    (hx : x = .ok a) : y = .ok a := by
  rcases h with h | h
  · exact nomatch hx.symm.trans h
  · exact h.symm.trans hx

theorem Better.trans {α : Type} {x y z : Except ScanError α} (h : Better x y) (h' : Better y z) :
    Better x z := by
  rcases h with h | rfl
  · exact .inl h
  · exact h'

/-- A family of results of which each is at least as good as those before. -/
theorem better_of_le {α : Type} {f : Nat → Except ScanError α} (h : ∀ n, Better (f n) (f (n + 1)))
    {m n : Nat} (hmn : m ≤ n) : Better (f m) (f n) := by
  induction n, hmn using Nat.le_induction with
  | base => exact .inr rfl
  | succ n _ ih => exact ih.trans (h n)

/-- What a scan finds with any fuel, it finds with enough. -/
theorem scanValue_enough {n : Nat} (hn : 2 * s.length + 1 ≤ n) :
    Better (scanValue (F := F) fuel room s) (scanValue n room s) := by
  rcases Nat.le_total fuel n with h | h
  · exact better_of_le (fun k => (grows k).value room s) h
  · right
    induction fuel, h using Nat.le_induction with
    | base => rfl
    | succ k hk ih => exact ((enough k).value (hn.trans hk)).trans ih

/-! ## The places of a scan -/

/-- What the scanner is about to read: a value, or what is left of an array or of an object. -/
inductive Place where
  | value
  | item
  | member
  deriving DecidableEq, Repr

/-- Where the next value is. -/
inductive ValueAt : Place → PyStr → PyStr → Prop
  | value {s : PyStr} : ValueAt .value s s
  | item {s : PyStr} : ValueAt .item s s
  | member {s t : PyStr} (h : MemberValue s t) : ValueAt .member s t

/-- The scan of the text `s`, with room for `limit` containers, comes to the text `t` with room for
    `room` more. -/
inductive Comes (F : Type) [PyFloat F] (limit : Nat) (s : PyStr) : Place → Nat → PyStr → Prop
  | start : Comes F limit s .value limit s
  | array {p : Place} {room : Nat} {t u : PyStr} (h : Comes F limit s p (room + 1) t)
      (hu : ValueAt p t (91 :: u)) (hne : (skipWs u).head? ≠ some 93) :
      Comes F limit s .item room (skipWs u)
  | object {p : Place} {room : Nat} {t u : PyStr} (h : Comes F limit s p (room + 1) t)
      (hu : ValueAt p t (123 :: u)) (hne : (skipWs u).head? ≠ some 125) :
      Comes F limit s .member room (skipWs u)
  | next {p : Place} {room fuel : Nat} {t u r r' : PyStr} {v : Json F} (h : Comes F limit s p room t)
      (hp : p ≠ .value) (hu : ValueAt p t u) (hv : scanValue fuel room u = .ok (v, r))
      (hr : skipWs r = 44 :: r') : Comes F limit s p room (skipWs r')

/-- The scanner fails at a place. -/
def FailsAt (F : Type) [PyFloat F] (fuel : Nat) : Place → Nat → PyStr → ScanError → Prop
  | .value, room, s, e => scanValue (F := F) fuel room s = .error e
  | .item, room, s, e => scanItems (F := F) fuel room s = .error e
  | .member, room, s, e => scanMembers (F := F) fuel room s = .error e

/-- A place fails by its next value or by what comes after that. -/
theorem failsAt_iff {p : Place} (hp : p ≠ .value) (he : e ≠ .jsonDecodeError) :
    FailsAt F (fuel + 1) p room s e ↔
      ∃ u, ValueAt p s u ∧ (scanValue (F := F) fuel room u = .error e ∨
        ∃ (v : Json F) (r r' : PyStr), scanValue fuel room u = .ok (v, r) ∧ skipWs r = 44 :: r' ∧
          FailsAt F fuel p room (skipWs r') e) := by
  cases p with
  | value => exact absurd rfl hp
  | item =>
      rw [FailsAt, scanItems_error_iff he]
      constructor
      · exact fun h => ⟨s, .item, h⟩
      · rintro ⟨_, ⟨⟩, h⟩
        exact h
  | member =>
      rw [FailsAt, scanMembers_error_iff he]
      constructor
      · rintro ⟨u, hu, h⟩
        exact ⟨u, .member hu, h⟩
      · rintro ⟨u, hu, h⟩
        cases hu with
        | member hu => exact ⟨u, hu, h⟩

theorem FailsAt.more {p : Place} {n : Nat} (h : FailsAt F fuel p room s e)
    (he : e ≠ .jsonDecodeError) (hn : fuel ≤ n) : FailsAt F n p room s e := by
  cases p with
  | value => exact (better_of_le (fun k => (grows k).value room s) hn).error he h
  | item => exact (better_of_le (fun k => (grows k).items room s) hn).error he h
  | member => exact (better_of_le (fun k => (grows k).members room s) hn).error he h

/-- The value that is refused, on the way to which the scan is. -/
theorem FailsAt.refused {limit : Nat} {s₀ : PyStr} (he : e ≠ .jsonDecodeError) :
    ∀ {fuel p room s}, FailsAt F fuel p room s e → Comes F limit s₀ p room s →
      ∃ p' room' s' u, Comes F limit s₀ p' room' s' ∧ ValueAt p' s' u ∧ Refused room' u e := by
  intro fuel
  induction fuel with
  | zero =>
      intro p room s h _
      cases p <;> exact absurd (Except.error.inj h).symm he
  | succ fuel ih =>
      -- a value fails where it is, whichever place it was found at
      have hvalue : ∀ {p room s u}, Comes F limit s₀ p room s → ValueAt p s u →
          scanValue (F := F) (fuel + 1) room u = .error e →
          ∃ p' room' s' u, Comes F limit s₀ p' room' s' ∧ ValueAt p' s' u ∧ Refused room' u e := by
        intro p room s u hcomes hu h
        rcases (scanValue_error_iff he).1 h with h | ⟨n, t, rfl, rfl, hne, h⟩ | ⟨n, t, rfl, rfl, hne, h⟩
        · exact ⟨p, room, s, u, hcomes, hu, h⟩
        · exact ih (p := .item) h (.array hcomes hu hne)
        · exact ih (p := .member) h (.object hcomes hu hne)
      intro p room s h hcomes
      by_cases hp : p = .value
      · subst hp
        exact hvalue hcomes .value h
      · obtain ⟨u, hu, h | ⟨v, r, r', hv, hr, h⟩⟩ := (failsAt_iff hp he).1 h
        · exact hvalue hcomes hu ((better_of_le (fun k => (grows k).value room u) fuel.le_succ).error he h)
        · exact ih h (.next hcomes hp hu hv hr)

/-- A failure at a place that the scan comes to is the failure of the scan. -/
theorem Comes.fails {limit : Nat} {s₀ : PyStr} {p : Place} {room : Nat} {s : PyStr}
    (h : Comes F limit s₀ p room s) (he : e ≠ .jsonDecodeError) :
    (∃ fuel, FailsAt F fuel p room s e) → ∃ fuel, FailsAt F fuel .value limit s₀ e := by
  -- a failing value makes its place fail
  have hplace : ∀ {p room s u fuel}, ValueAt p s u → scanValue (F := F) fuel room u = .error e →
      ∃ fuel, FailsAt F fuel p room s e := by
    intro p room s u fuel hu h
    by_cases hp : p = .value
    · subst hp
      cases hu
      exact ⟨fuel, h⟩
    · exact ⟨fuel + 1, (failsAt_iff hp he).2 ⟨u, hu, .inl h⟩⟩
  induction h with
  | start => exact id
  | @array p room t u _ hu hne ih =>
      rintro ⟨fuel, h⟩
      exact ih (hplace hu ((scanValue_error_iff he).2 (.inr (.inl ⟨room, u, rfl, rfl, hne, h⟩))))
  | @object p room t u _ hu hne ih =>
      rintro ⟨fuel, h⟩
      exact ih (hplace hu ((scanValue_error_iff he).2 (.inr (.inr ⟨room, u, rfl, rfl, hne, h⟩))))
  | @next p room fuel₁ t u r r' v _ hp hu hv hr ih =>
      rintro ⟨fuel₂, h⟩
      refine ih ⟨max fuel₁ fuel₂ + 1, (failsAt_iff hp he).2 ⟨u, hu, .inr ⟨v, r, r', ?_, hr, ?_⟩⟩⟩
      · exact (better_of_le (fun k => (grows k).value room u) (le_max_left ..)).ok hv
      · exact h.more he (le_max_right ..)

/-- A text that `json.loads` leaves with the exception: its scan comes to a value that is refused. -/
def Overruns (F : Type) [PyFloat F] (limit : Nat) (s : PyStr) (e : ScanError) : Prop :=
  ∃ p room t u, Comes F limit (skipWs s) p room t ∧ ValueAt p t u ∧ Refused room u e

/-- **The texts on which `json.loads` raises something else than `JSONDecodeError`.** -/
theorem loadsWithin_error_iff {limit : Nat} (he : e ≠ .jsonDecodeError) :
    loadsWithin (F := F) limit s = .error e ↔ Overruns F limit s e := by
  have hloads : loadsWithin (F := F) limit s = .error e ↔
      scanValue (F := F) (2 * s.length + 2) limit (skipWs s) = .error e := by
    unfold loadsWithin
    cases scanValue (F := F) (2 * s.length + 2) limit (skipWs s) with
    | error e' =>
        exact ⟨fun h => congrArg _ (Except.error.inj h), fun h => congrArg _ (Except.error.inj h)⟩
    | ok p =>
        refine iff_of_false ?_ nofun
        dsimp only
        split
        · nofun
        · exact fun h => he (Except.error.inj h).symm
  rw [hloads]
  constructor
  · intro h
    exact FailsAt.refused (p := .value) he h .start
  · rintro ⟨p, room, t, u, hcomes, hu, hrefused⟩
    have hfails : ∃ fuel, FailsAt F fuel p room t e := by
      have hvalue : scanValue (F := F) (0 + 1) room u = .error e :=
        (scanValue_error_iff he).2 (.inl hrefused)
      by_cases hp : p = .value
      · subst hp
        cases hu
        exact ⟨1, hvalue⟩
      · exact ⟨2, (failsAt_iff hp he).2 ⟨u, hu, .inl hvalue⟩⟩
    obtain ⟨fuel, hfail⟩ := hcomes.fails he hfails
    have hlen := skipWs_length s
    exact (scanValue_enough (by omega)).error he hfail

end Scan

end Elyra.Python
