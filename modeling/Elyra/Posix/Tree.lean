import Elyra.Python.Paths

set_option autoImplicit false

/-! # A tree with symbolic links

A file-system tree that does not change, and how the kernel finds what a path names: component by
component from a directory, with links followed where they stand and `..` as the parent of the
directory that has been reached. `Walks` is the relation, `walk` the function with the kernel's limit
on links. `Descends` is a path without links: it leads to its end by directory entries only. -/

namespace Elyra.Posix

open Elyra.Python

inductive InodeKind where
  | regular
  | directory
  | symlink (target : PyStr)
  /-- A device, a socket or a pipe. -/
  | special
  deriving DecidableEq, Repr

structure Inode where
  kind : InodeKind
  uid : Int
  size : Nat
  deriving DecidableEq, Repr

/-- The nodes of a tree are numbers; every directory has one parent. -/
structure Tree where
  root : Nat
  inode : Nat → Inode
  entry : Nat → PyStr → Option Nat
  parent : Nat → Nat
  root_dir : (inode root).kind = .directory
  parent_root : parent root = root
  parent_entry : ∀ d name i, (inode d).kind = .directory → entry d name = some i →
    (inode i).kind = .directory → parent i = d
  parent_dir : ∀ d, (inode d).kind = .directory → (inode (parent d)).kind = .directory
  entry_slash : ∀ d name i, entry d name = some i → 47 ∉ name

/-- Why a path is not found. -/
inductive PathError where
  | noEntry
  | notDirectory
  | loop
  deriving DecidableEq, Repr

namespace Tree

variable {t : Tree} {d e i j : Nat} {name target : PyStr} {path rest xs ys : List PyStr}

/-! ## The kernel -/

/-- Where a link's target starts. -/
def start (t : Tree) (d : Nat) (target : PyStr) : Nat :=
  if target.head? = some 47 then t.root else d

/-- The components one after the other; what happens at a link is left open. -/
def walkFrom (t : Tree) (onLink : Nat → List PyStr → Except PathError Nat) :
    Nat → List PyStr → Except PathError Nat
  | d, [] => .ok d
  | d, name :: rest =>
      if (t.inode d).kind ≠ .directory then .error .notDirectory
      else if name = [] ∨ name = py "." then walkFrom t onLink d rest
      else if name = py ".." then walkFrom t onLink (t.parent d) rest
      else
        match t.entry d name with
        | none => .error .noEntry
        | some i =>
            match (t.inode i).kind with
            | .symlink target => onLink (t.start d target) (splitSlash target ++ rest)
            | _ => walkFrom t onLink i rest

/-- What is found on following at most so many links. -/
def walk (t : Tree) : Nat → Nat → List PyStr → Except PathError Nat
  | 0 => walkFrom t fun _ _ => .error .loop
  | links + 1 => walkFrom t (walk t links)

/-- The links the kernel follows. -/
def maxLinks : Nat := 40

/-- `stat` of an absolute path, given by its components. -/
def stat (t : Tree) (path : List PyStr) : Except PathError Nat := t.walk maxLinks t.root path

/-- `lstat`: the last component is not followed. -/
def lstat (t : Tree) (path : List PyStr) : Except PathError Nat :=
  match path.getLast? with
  | none => .ok t.root
  | some last =>
      match t.walk maxLinks t.root path.dropLast with
      | .error e => .error e
      | .ok d =>
          if (t.inode d).kind ≠ .directory then .error .notDirectory
          else if last = [] ∨ last = py "." then .ok d
          else if last = py ".." then .ok (t.parent d)
          else
            match t.entry d last with
            | none => .error .noEntry
            | some i => .ok i

/-! ## The relation -/

/-- From the directory the components lead to the node, all links followed. -/
inductive Walks (t : Tree) : Nat → List PyStr → Nat → Prop
  | nil {d : Nat} : Walks t d [] d
  | stay {d e : Nat} {name : PyStr} {rest : List PyStr} (hdir : (t.inode d).kind = .directory)
      (hname : name = [] ∨ name = py ".") (h : Walks t d rest e) : Walks t d (name :: rest) e
  | up {d e : Nat} {rest : List PyStr} (hdir : (t.inode d).kind = .directory)
      (h : Walks t (t.parent d) rest e) : Walks t d (py ".." :: rest) e
  | down {d e i : Nat} {name : PyStr} {rest : List PyStr} (hdir : (t.inode d).kind = .directory)
      (hname : PlainName name) (hentry : t.entry d name = some i)
      (hkind : ∀ target, (t.inode i).kind ≠ .symlink target) (h : Walks t i rest e) :
      Walks t d (name :: rest) e
  | link {d e i j : Nat} {name target : PyStr} {rest : List PyStr}
      (hdir : (t.inode d).kind = .directory) (hname : PlainName name)
      (hentry : t.entry d name = some i) (hkind : (t.inode i).kind = .symlink target)
      (hj : Walks t (t.start d target) (splitSlash target) j) (h : Walks t j rest e) :
      Walks t d (name :: rest) e

theorem Walks.append (h : Walks t d xs j) (h' : Walks t j ys e) : Walks t d (xs ++ ys) e := by
  induction h with
  | nil => exact h'
  | stay hdir hname _ ih => exact .stay hdir hname (ih h')
  | up hdir _ ih => exact .up hdir (ih h')
  | down hdir hname hentry hkind _ ih => exact .down hdir hname hentry hkind (ih h')
  | link hdir hname hentry hkind hj _ _ ih => exact .link hdir hname hentry hkind hj (ih h')

theorem Walks.split (h : Walks t d (xs ++ ys) e) : ∃ j, Walks t d xs j ∧ Walks t j ys e := by
  induction xs generalizing d with
  | nil => exact ⟨d, .nil, h⟩
  | cons x xs ih =>
      cases h with
      | stay hdir hname h =>
          obtain ⟨j, hj, hrest⟩ := ih h
          exact ⟨j, .stay hdir hname hj, hrest⟩
      | up hdir h =>
          obtain ⟨j, hj, hrest⟩ := ih h
          exact ⟨j, .up hdir hj, hrest⟩
      | down hdir hname hentry hkind h =>
          obtain ⟨j, hj, hrest⟩ := ih h
          exact ⟨j, .down hdir hname hentry hkind hj, hrest⟩
      | link hdir hname hentry hkind hk h =>
          obtain ⟨j, hj, hrest⟩ := ih h
          exact ⟨j, .link hdir hname hentry hkind hk hj, hrest⟩

/-- The components lead to one node. -/
theorem Walks.unique (h : Walks t d path i) (h' : Walks t d path j) : i = j := by
  induction h generalizing j with
  | nil =>
      cases h'
      rfl
  | stay _ hname _ ih =>
      cases h' with
      | stay _ _ h' => exact ih h'
      | up _ h' => exact absurd hname (by decide)
      | down _ hname' => exact (hname.elim hname'.ne_nil hname'.ne_dot).elim
      | link _ hname' => exact (hname.elim hname'.ne_nil hname'.ne_dot).elim
  | up _ _ ih =>
      cases h' with
      | stay _ hname => exact absurd hname (by decide)
      | up _ h' => exact ih h'
      | down _ hname => exact absurd rfl hname.ne_dots
      | link _ hname => exact absurd rfl hname.ne_dots
  | down _ hname hentry hkind _ ih =>
      cases h' with
      | stay _ hname' => exact (hname'.elim hname.ne_nil hname.ne_dot).elim
      | up => exact absurd rfl hname.ne_dots
      | down _ _ hentry' _ h' =>
          obtain rfl := Option.some.inj (hentry.symm.trans hentry')
          exact ih h'
      | link _ _ hentry' hkind' =>
          obtain rfl := Option.some.inj (hentry.symm.trans hentry')
          exact absurd hkind' (hkind _)
  | link _ hname hentry hkind _ _ ihj ih =>
      cases h' with
      | stay _ hname' => exact (hname'.elim hname.ne_nil hname.ne_dot).elim
      | up => exact absurd rfl hname.ne_dots
      | down _ _ hentry' hkind' =>
          obtain rfl := Option.some.inj (hentry.symm.trans hentry')
          exact absurd hkind (hkind' _)
      | link _ _ hentry' hkind' hj' h' =>
          obtain rfl := Option.some.inj (hentry.symm.trans hentry')
          obtain rfl := InodeKind.symlink.inj (hkind.symm.trans hkind')
          obtain rfl := ihj hj'
          exact ih h'

theorem walkFrom_walks {onLink : Nat → List PyStr → Except PathError Nat}
    (honLink : ∀ d path e, onLink d path = .ok e → Walks t d path e)
    (h : walkFrom t onLink d path = .ok e) : Walks t d path e := by
  induction path generalizing d with
  | nil =>
      obtain rfl := Except.ok.inj h
      exact .nil
  | cons name rest ih =>
      rw [walkFrom] at h
      split_ifs at h with hdir hname hdots
      · rw [not_not] at hdir
        exact .stay hdir hname (ih h)
      · rw [not_not] at hdir
        subst hdots
        exact .up hdir (ih h)
      · rw [not_not] at hdir
        cases hentry : t.entry d name with
        | none =>
            rw [hentry] at h
            exact nomatch h
        | some i =>
            have hreal : PlainName name := ⟨fun h => hname (.inl h), fun h => hname (.inr h), hdots,
              t.entry_slash d name i hentry⟩
            simp only [hentry] at h
            split at h
            · next target hkind =>
              obtain ⟨j, hj, hrest⟩ := (honLink _ _ _ h).split
              exact .link hdir hreal hentry hkind hj hrest
            · next hkind => exact .down hdir hreal hentry (fun target h => hkind target h) (ih h)

/-- **The function follows the relation.** -/
theorem walk_walks {links : Nat} (h : t.walk links d path = .ok e) : Walks t d path e := by
  induction links generalizing d path e with
  | zero => exact walkFrom_walks (fun _ _ _ h => absurd h (by simp)) h
  | succ links ih => exact walkFrom_walks (fun _ _ _ h => ih h) h

/-! ## Paths without links -/

/-- From the directory the names lead to the node by entries, none of them a link. -/
inductive Descends (t : Tree) : Nat → List PyStr → Nat → Prop
  | nil {d : Nat} : Descends t d [] d
  | cons {d i e : Nat} {name : PyStr} {rest : List PyStr} (hdir : (t.inode d).kind = .directory)
      (hname : PlainName name) (hentry : t.entry d name = some i)
      (hkind : ∀ target, (t.inode i).kind ≠ .symlink target) (h : Descends t i rest e) :
      Descends t d (name :: rest) e

theorem Descends.walks (h : Descends t d path e) : Walks t d path e := by
  induction h with
  | nil => exact .nil
  | cons hdir hname hentry hkind _ ih => exact .down hdir hname hentry hkind ih

theorem Descends.unique (h : Descends t d path i) (h' : Descends t d path j) : i = j :=
  h.walks.unique h'.walks

theorem Descends.snoc (h : Descends t d path e) (hdir : (t.inode e).kind = .directory)
    (hname : PlainName name) (hentry : t.entry e name = some i)
    (hkind : ∀ target, (t.inode i).kind ≠ .symlink target) : Descends t d (path ++ [name]) i := by
  induction h with
  | nil => exact .cons hdir hname hentry hkind .nil
  | cons hd hn he hk _ ih => exact .cons hd hn he hk (ih hdir hentry)

theorem Descends.names (h : Descends t d path e) : ∀ name ∈ path, PlainName name := by
  induction h with
  | nil => exact nofun
  | cons _ hname _ _ _ ih =>
      rintro name (_ | ⟨_, hmem⟩)
      · exact hname
      · exact ih name hmem

/-- The last step. -/
theorem Descends.last (h : Descends t d (path ++ [name]) i) : ∃ e, Descends t d path e ∧
    (t.inode e).kind = .directory ∧ t.entry e name = some i := by
  induction path generalizing d with
  | nil =>
      cases h with
      | cons hdir _ hentry _ h =>
          cases h
          exact ⟨d, .nil, hdir, hentry⟩
  | cons x path ih =>
      cases h with
      | cons hdir hname hentry hkind h =>
          obtain ⟨e, he, hlast⟩ := ih h
          exact ⟨e, .cons hdir hname hentry hkind he, hlast⟩

/-- The directory above, by the text of the path and by `..`. -/
theorem Descends.dropLast (h : Descends t t.root path d) (hdir : (t.inode d).kind = .directory) :
    Descends t t.root path.dropLast (t.parent d) := by
  rcases List.eq_nil_or_concat path with rfl | ⟨init, last, rfl⟩
  · cases h
    rw [t.parent_root]
    exact .nil
  · rw [List.concat_eq_append] at h ⊢
    obtain ⟨e, he, hedir, hentry⟩ := h.last
    rw [List.dropLast_concat, t.parent_entry e last d hedir hentry hdir]
    exact he

theorem Descends.walkFrom {onLink : Nat → List PyStr → Except PathError Nat}
    (h : Descends t d path e) : t.walkFrom onLink d path = .ok e := by
  induction h with
  | nil => rfl
  | @cons d i e name rest hdir hname hentry hkind _ ih =>
      rw [Tree.walkFrom, if_neg (not_not.2 hdir), if_neg (not_or.2 ⟨hname.ne_nil, hname.ne_dot⟩),
        if_neg hname.ne_dots, hentry]
      dsimp only
      split
      · next target h => exact absurd h (hkind target)
      · exact ih

theorem Descends.walk {links : Nat} (h : Descends t d path e) : t.walk links d path = .ok e := by
  cases links with
  | zero => exact h.walkFrom
  | succ links => exact h.walkFrom

/-- `lstat` of a name in a directory that a path without links leads to. -/
theorem Descends.lstat_snoc (h : Descends t t.root path d) (hdir : (t.inode d).kind = .directory)
    (hname : PlainName name) (hentry : t.entry d name = some i) :
    t.lstat (path ++ [name]) = .ok i := by
  unfold lstat
  rw [List.getLast?_concat, List.dropLast_concat]
  simp only [h.walk]
  rw [if_neg (not_not.2 hdir), if_neg (not_or.2 ⟨hname.ne_nil, hname.ne_dot⟩), if_neg hname.ne_dots,
    hentry]

theorem Descends.lstat (h : Descends t t.root path i) : t.lstat path = .ok i := by
  rcases List.eq_nil_or_concat path with rfl | ⟨init, last, rfl⟩
  · cases h
    rfl
  · rw [List.concat_eq_append] at h ⊢
    obtain ⟨e, he, hdir, hentry⟩ := h.last
    exact he.lstat_snoc hdir (h.names last (by simp)) hentry

/-- A file that `lstat` finds and that is neither a link nor a directory is where the path leads. -/
theorem walks_of_lstat (h : t.lstat path = .ok i) (hdir : (t.inode i).kind ≠ .directory)
    (hlink : ∀ target, (t.inode i).kind ≠ .symlink target) : Walks t t.root path i := by
  unfold Tree.lstat at h
  rcases List.eq_nil_or_concat path with rfl | ⟨init, last, rfl⟩
  · obtain rfl := Except.ok.inj h
    exact .nil
  · rw [List.concat_eq_append] at h ⊢
    rw [List.getLast?_concat, List.dropLast_concat] at h
    dsimp only at h
    cases hwalk : t.walk maxLinks t.root init with
    | error e =>
        rw [hwalk] at h
        cases h
    | ok d =>
        simp only [hwalk] at h
        split_ifs at h with hd hname hdots
        · rw [not_not] at hd
          obtain rfl := Except.ok.inj h
          exact absurd hd hdir
        · rw [not_not] at hd
          obtain rfl := Except.ok.inj h
          exact absurd (t.parent_dir d hd) hdir
        · rw [not_not] at hd
          cases hentry : t.entry d last with
          | none =>
              rw [hentry] at h
              cases h
          | some i' =>
              rw [hentry] at h
              obtain rfl := Except.ok.inj h
              have hreal : PlainName last := ⟨fun h => hname (.inl h), fun h => hname (.inr h),
                hdots, t.entry_slash d last i' hentry⟩
              exact (walk_walks hwalk).append (.down hd hreal hentry hlink .nil)

end Tree

end Elyra.Posix
