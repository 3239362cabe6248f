import Elyra.Posix.Tree
import Elyra.Python.Dict

set_option autoImplicit false

/-! # `os.path.realpath` and `Path.resolve`

`_joinrealpath` resolves a path by its text: it keeps the links it has met and what they resolve to, and
takes the last component off for `..`. On a tree that does not change it finds what the kernel finds,
and its result is a path without links (`joinRealpath_sound`). A path is the list of its components. -/

namespace Elyra.Python

open Elyra.Posix

/-! ## Pure paths -/

/-- An absolute `pathlib` path: `/` or `//`, and the parts. -/
structure PurePath where
  slashes : Nat
  parts : List PyStr
  deriving DecidableEq, Repr

/-- `Path(text)`, for an absolute text. -/
def PurePath.parse (text : PyStr) : PurePath where
  slashes := initialSlashes text
  parts := (splitSlash text).filter fun comp => comp ≠ [] ∧ comp ≠ py "."

/-- `str(path)`. -/
def PurePath.text (p : PurePath) : PyStr := slashed p.slashes p.parts

/-- `path.relative_to(root)` raises no `ValueError`. -/
def PurePath.isBeneath (path root : PurePath) : Bool :=
  path.slashes == root.slashes && root.parts.isPrefixOf path.parts

/-- `os.path.join(a, b)`. -/
def osJoin (a b : PyStr) : PyStr :=
  if b.head? = some 47 then b
  else if a = [] ∨ a.getLast? = some 47 then a ++ b
  else a ++ 47 :: b

/-! ## `_joinrealpath` -/

inductive ResolveError where
  | os (e : PathError)
  /-- `RecursionError`. -/
  | recursion
  /-- `RuntimeError`, for a loop. -/
  | runtime
  deriving DecidableEq, Repr

/-- The path is resolved, or it is left as it is at a loop. -/
inductive Joined where
  | resolved (path : List PyStr)
  | unresolved (text : PyStr)
  deriving DecidableEq, Repr

def Joined.text : Joined → PyStr
  | .resolved path => slashed 1 path
  | .unresolved text => text

/-- The links that have been met, with what they resolve to where that is known. -/
abbrev Seen := List (List PyStr × Option (List PyStr))

section Joining

variable (t : Tree) (strict : Bool)
  (onLink : List PyStr → List PyStr → Seen → Except ResolveError (Joined × Seen))

/-- The path that a link's target continues. -/
def linkStart (path : List PyStr) (target : PyStr) : List PyStr :=
  if target.head? = some 47 then [] else path

/-- The link is resolved and kept. -/
def enterLink (path newpath : List PyStr) (target : PyStr) (seen : Seen) :
    Except ResolveError (Joined × Seen) :=
  match onLink (linkStart path target) (splitSlash target) (assign newpath none seen) with
  | .ok (.resolved q, seen) => .ok (.resolved q, assign newpath (some q) seen)
  | x => x

/-- What a link stands for. -/
def followLink (path newpath : List PyStr) (target : PyStr) (seen : Seen) :
    Except ResolveError (Joined × Seen) :=
  match lookup newpath seen with
  | some (some q) => .ok (.resolved q, seen)
  -- the link is being resolved: with `strict`, `os.stat` raises `ELOOP`
  | some none =>
      if strict = false then .ok (.unresolved (slashed 1 newpath), seen)
      else
        match t.stat newpath with
        | .error e => .error (.os e)
        | .ok _ => enterLink onLink path newpath target seen
  | none => enterLink onLink path newpath target seen

/-- The loop of `_joinrealpath`. -/
def joinFrom : List PyStr → List PyStr → Seen → Except ResolveError (Joined × Seen)
  | path, [], seen => .ok (.resolved path, seen)
  | path, name :: rest, seen =>
      if name = [] ∨ name = py "." then joinFrom path rest seen
      else if name = py ".." then joinFrom path.dropLast rest seen
      else
        match t.lstat (path ++ [name]) with
        | .error e => if strict then .error (.os e) else joinFrom (path ++ [name]) rest seen
        | .ok i =>
            match (t.inode i).kind with
            | .symlink target =>
                match followLink t strict onLink path (path ++ [name]) target seen with
                | .error e => .error e
                | .ok (.unresolved text, seen) =>
                    .ok (.unresolved (osJoin text (List.intercalate [47] rest)), seen)
                | .ok (.resolved q, seen) => joinFrom q rest seen
            | _ => joinFrom (path ++ [name]) rest seen

end Joining

/-- `_joinrealpath`; it calls itself for every link inside a link. -/
def joinRealpath (t : Tree) (strict : Bool) :
    Nat → List PyStr → List PyStr → Seen → Except ResolveError (Joined × Seen)
  | 0 => joinFrom t strict fun _ _ _ => .error .recursion
  | limit + 1 => joinFrom t strict (joinRealpath t strict limit)

/-- `os.path.realpath` of an absolute path. -/
def realpath (t : Tree) (strict : Bool) (limit : Nat) (text : PyStr) : Except ResolveError PyStr :=
  match joinRealpath t strict limit [] (splitSlash text) [] with
  | .error e => .error e
  | .ok (joined, _) => .ok (normpath joined.text)

/-- `Path.resolve` of an absolute path. -/
def resolve (t : Tree) (strict : Bool) (limit : Nat) (text : PyStr) : Except ResolveError PurePath :=
  match realpath t strict limit text with
  | .error (.os .loop) => .error .runtime
  | .error e => .error e
  | .ok s =>
      if strict then .ok (.parse s)
      else
        match t.stat (PurePath.parse s).parts with
        | .error .loop => .error .runtime
        | _ => .ok (.parse s)

/-! ## Soundness -/

section Soundness

variable {t : Tree} {path rest q : List PyStr} {seen seen' : Seen} {d e i j : Nat}

/-- The link at `newpath` leads where `q` leads. -/
def LinkLeads (t : Tree) (newpath q : List PyStr) : Prop :=
  ∃ p name d i target j, newpath = p ++ [name] ∧ t.Descends t.root p d ∧
    t.entry d name = some i ∧ (t.inode i).kind = .symlink target ∧
    t.Walks (t.start d target) (splitSlash target) j ∧ t.Descends t.root q j

/-- What is kept is right. -/
def SeenSound (t : Tree) (seen : Seen) : Prop :=
  ∀ newpath q, lookup newpath seen = some (some q) → LinkLeads t newpath q

theorem SeenSound.assign {newpath : List PyStr} {x : Option (List PyStr)} (h : SeenSound t seen)
    (hx : ∀ q, x = some q → LinkLeads t newpath q) : SeenSound t (assign newpath x seen) := by
  intro p q hq
  rw [lookup_assign] at hq
  split_ifs at hq with heq
  · subst heq
    exact hx q (Option.some.inj hq)
  · exact h p q hq

/-- Where the kernel finds the rest, the result leads there without links. -/
def JoinSound (t : Tree)
    (join : List PyStr → List PyStr → Seen → Except ResolveError (Joined × Seen)) : Prop :=
  ∀ path rest seen joined seen' d e, t.Descends t.root path d → SeenSound t seen →
    join path rest seen = .ok (joined, seen') → t.Walks d rest e →
    ∃ q, joined = .resolved q ∧ t.Descends t.root q e ∧ SeenSound t seen'

theorem linkStart_descends (h : t.Descends t.root path d) (target : PyStr) :
    t.Descends t.root (linkStart path target) (t.start d target) := by
  unfold linkStart Tree.start
  split
  · exact .nil
  · exact h

/-- A link resolves to where the kernel goes on from it. -/
theorem followLink_sound
    {onLink : List PyStr → List PyStr → Seen → Except ResolveError (Joined × Seen)}
    {joined : Joined} {name target : PyStr} (hon : JoinSound t onLink)
    (hpath : t.Descends t.root path d) (hentry : t.entry d name = some i)
    (hkind : (t.inode i).kind = .symlink target)
    (hj : t.Walks (t.start d target) (splitSlash target) j) (hseen : SeenSound t seen)
    (h : followLink t true onLink path (path ++ [name]) target seen = .ok (joined, seen')) :
    ∃ q, joined = .resolved q ∧ t.Descends t.root q j ∧ SeenSound t seen' := by
  have henter : enterLink onLink path (path ++ [name]) target seen = .ok (joined, seen') →
      ∃ q, joined = .resolved q ∧ t.Descends t.root q j ∧ SeenSound t seen' := by
    intro h
    unfold enterLink at h
    have hnone : SeenSound t (assign (path ++ [name]) none seen) := hseen.assign nofun
    cases hx : onLink (linkStart path target) (splitSlash target)
        (assign (path ++ [name]) none seen) with
    | error e =>
        rw [hx] at h
        exact nomatch h
    | ok p =>
        obtain ⟨joined₁, seen₁⟩ := p
        obtain ⟨q, rfl, hq, hseen₁⟩ := hon _ _ _ _ _ _ _ (linkStart_descends hpath target) hnone hx hj
        rw [hx] at h
        cases h
        refine ⟨q, rfl, hq, hseen₁.assign ?_⟩
        rintro q' hq'
        obtain rfl := Option.some.inj hq'
        exact ⟨path, name, d, i, target, j, rfl, hpath, hentry, hkind, hj, hq⟩
  unfold followLink at h
  split at h
  · next q hq =>
    cases h
    obtain ⟨p, name', d', i', target', j', heq, hp, hentry', hkind', hj', hq'⟩ := hseen _ _ hq
    obtain ⟨rfl, hname⟩ := List.append_inj' heq rfl
    obtain rfl := List.singleton_inj.1 hname
    obtain rfl := hpath.unique hp
    obtain rfl := Option.some.inj (hentry.symm.trans hentry')
    obtain rfl := InodeKind.symlink.inj (hkind.symm.trans hkind')
    obtain rfl := hj.unique hj'
    exact ⟨q, rfl, hq', hseen⟩
  · rw [if_neg (by simp)] at h
    split at h
    · exact nomatch h
    · exact henter h
  · exact henter h

theorem joinFrom_sound
    {onLink : List PyStr → List PyStr → Seen → Except ResolveError (Joined × Seen)}
    (hon : JoinSound t onLink) : JoinSound t (joinFrom t true onLink) := by
  intro path rest
  induction rest generalizing path with
  | nil =>
      intro seen joined seen' d e hpath hseen h hwalks
      cases h
      cases hwalks
      exact ⟨path, rfl, hpath, hseen⟩
  | cons name rest ih =>
      intro seen joined seen' d e hpath hseen h hwalks
      rw [joinFrom] at h
      cases hwalks with
      | stay hdir hname hwalks =>
          rw [if_pos hname] at h
          exact ih _ _ _ _ _ _ hpath hseen h hwalks
      | up hdir hwalks =>
          rw [if_neg (by decide), if_pos rfl] at h
          exact ih _ _ _ _ _ _ (hpath.dropLast hdir) hseen h hwalks
      | @down _ _ i _ _ hdir hname hentry hkind hwalks =>
          rw [if_neg (not_or.2 ⟨hname.ne_nil, hname.ne_dot⟩), if_neg hname.ne_dots,
            hpath.lstat_snoc hdir hname hentry] at h
          dsimp only at h
          split at h
          · next target hlink => exact absurd hlink (hkind target)
          · exact ih _ _ _ _ _ _ (hpath.snoc hdir hname hentry hkind) hseen h hwalks
      | @link _ _ i j _ target _ hdir hname hentry hkind hj hwalks =>
          rw [if_neg (not_or.2 ⟨hname.ne_nil, hname.ne_dot⟩), if_neg hname.ne_dots,
            hpath.lstat_snoc hdir hname hentry] at h
          simp only [hkind] at h
          cases hfollow : followLink t true onLink path (path ++ [name]) target seen with
          | error e =>
              rw [hfollow] at h
              exact nomatch h
          | ok p =>
              obtain ⟨joined₁, seen₁⟩ := p
              obtain ⟨q, rfl, hq, hseen₁⟩ :=
                followLink_sound hon hpath hentry hkind hj hseen hfollow
              rw [hfollow] at h
              exact ih _ _ _ _ _ _ hq hseen₁ h hwalks

/-- **With `strict`, `_joinrealpath` finds what the kernel finds, by a path without links.** -/
theorem joinRealpath_sound (limit : Nat) : JoinSound t (joinRealpath t true limit) := by
  induction limit with
  | zero => exact joinFrom_sound fun _ _ _ _ _ _ _ _ _ h => absurd h (by simp)
  | succ limit ih => exact joinFrom_sound ih

theorem parse_slashed {comps : List PyStr} (hcomps : ∀ c ∈ comps, PlainName c) :
    PurePath.parse (slashed 1 comps) = ⟨1, comps⟩ := by
  unfold PurePath.parse
  rw [initialSlashes_slashed (.inl rfl) hcomps, PurePath.mk.injEq]
  refine ⟨rfl, ?_⟩
  rw [splitSlash_slashed hcomps, List.filter_append]
  have hkeep : comps.filter (fun c => c ≠ [] ∧ c ≠ py ".") = comps :=
    List.filter_eq_self.2 fun c hc => by simp [(hcomps c hc).ne_nil, (hcomps c hc).ne_dot]
  by_cases hne : comps = []
  · subst hne
    rfl
  · rw [if_neg hne, hkeep]
    rfl

/-- **`Path.resolve(strict=True)` of a path that the kernel can walk.** -/
theorem resolve_sound {limit : Nat} {text : PyStr} {p : PurePath}
    (h : resolve t true limit text = .ok p) (hwalks : t.Walks t.root (splitSlash text) e) :
    p.slashes = 1 ∧ t.Descends t.root p.parts e := by
  unfold resolve realpath at h
  cases hjoin : joinRealpath t true limit [] (splitSlash text) [] with
  | error e =>
      rw [hjoin] at h
      dsimp only at h
      split at h
      · exact nomatch h
      · exact nomatch h
      · next heq => exact nomatch heq
  | ok x =>
      obtain ⟨joined, seen⟩ := x
      obtain ⟨q, rfl, hq, -⟩ :=
        joinRealpath_sound limit _ _ _ _ _ _ _ .nil (fun _ _ h => absurd h (by simp [lookup])) hjoin hwalks
      rw [hjoin] at h
      simp only [Joined.text, normpath_slashed (.inl rfl) hq.names, parse_slashed hq.names,
        if_true] at h
      cases h
      exact ⟨rfl, hq⟩

end Soundness

end Elyra.Python
