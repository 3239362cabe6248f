import Mathlib.Logic.Function.Basic
import Elyra.Python.Text
import Elyra.Posix.Program

set_option autoImplicit false

/-! # Files

Names and the files they stand for. A name (`N`) leads to an inode number, an open file is its inode
number, and the contents stay with the inode, so that a file outlives its names while it is open.
`Files.answers` is what the kernel does for each call. It leaves open what the callers must not depend
on: how many bytes one `write` takes, the time stamps, and whether `renameat2` is supported.

`Files.Keeps f f'` says that the files of `f` still have the same contents and attributes in `f'`,
whatever their names. Times of change and link counts are left out: moving a file changes them. -/

namespace Elyra.Posix

open Elyra.Python

inductive Errno where
  | noEntry
  | exists
  | noSyscall
  | invalid
  | readOnly
  | loop
  | other (n : Nat)
  deriving DecidableEq, Repr

inductive Kind where
  | regular
  | symlink
  | directory
  | special
  deriving DecidableEq, Repr

structure Node where
  kind : Kind
  device : Nat
  bytes : Bytes
  mode : Nat
  uid : Nat
  gid : Nat
  mtime : Nat
  ctime : Nat
  links : Nat
  deriving DecidableEq

/-- `os.stat_result`. -/
structure Stat where
  kind : Kind
  device : Nat
  inode : Nat
  size : Nat
  mode : Nat
  uid : Nat
  gid : Nat
  mtime : Nat
  ctime : Nat
  links : Nat
  deriving DecidableEq

structure Files (N : Type) where
  names : N → Option Nat
  nodes : Nat → Node
  /-- The inode numbers from here on are free. -/
  used : Nat

inductive FileCall (N D : Type) where
  | lstat (p : N)
  /-- `os.path.lexists(p)`, which answers `False` where its `lstat` fails. -/
  | lexists (p : N)
  /-- `os.open(p, O_RDONLY | O_NOFOLLOW)`. -/
  | openRead (p : N)
  /-- `open(p)`, which follows a symbolic link. -/
  | openFile (p : N)
  /-- `os.open(p, O_WRONLY | O_CREAT | O_EXCL | O_NOFOLLOW, 0o600)`. -/
  | openNew (p : N)
  | fstat (fd : Nat)
  /-- `os.lseek(fd, 0)` and `os.read` until it returns nothing. -/
  | readAll (fd : Nat)
  /-- The first `n` bytes. -/
  | readHead (fd n : Nat)
  | write (fd : Nat) (data : Bytes)
  | fchmod (fd mode : Nat)
  | fchown (fd uid gid : Nat)
  | fsync (fd : Nat)
  /-- `renameat2(src, dst, RENAME_NOREPLACE)`. -/
  | rename (src dst : N)
  | link (src dst : N)
  | unlink (p : N)
  /-- `os.replace`. -/
  | replace (src dst : N)
  | chmod (p : N) (mode : Nat)
  | openDir (d : D)
  | fsyncDir (d : D)

variable {N D : Type}

def FileCall.Answer : FileCall N D → Type
  | .lstat _ => Stat
  | .lexists _ => Bool
  | .openRead _ => Nat
  | .openFile _ => Nat
  | .openNew _ => Nat
  | .fstat _ => Stat
  | .readAll _ => Bytes
  | .readHead _ _ => Bytes
  | .write _ _ => Nat
  | _ => Unit

namespace Files

def stat (f : Files N) (i : Nat) : Stat where
  kind := (f.nodes i).kind
  device := (f.nodes i).device
  inode := i
  size := (f.nodes i).bytes.length
  mode := (f.nodes i).mode
  uid := (f.nodes i).uid
  gid := (f.nodes i).gid
  mtime := (f.nodes i).mtime
  ctime := (f.nodes i).ctime
  links := (f.nodes i).links

/-- The file of that number changes. -/
def setNode (f : Files N) (i : Nat) (node : Node) : Files N :=
  { f with nodes := Function.update f.nodes i node }

variable [DecidableEq N]

def setName (f : Files N) (p : N) (i : Option Nat) : Files N :=
  { f with names := Function.update f.names p i }

/-- A new, empty file. -/
def create (f : Files N) (p : N) (node : Node) : Files N :=
  { names := Function.update f.names p (some f.used)
    nodes := Function.update f.nodes f.used node
    used := f.used + 1 }

/-- What the kernel does for a call. -/
def answers : (c : FileCall N D) → Files N → Except Errno c.Answer → Files N → Prop
  | .lstat p, f, r, f' =>
      f' = f ∧ r = match f.names p with
        | none => .error .noEntry
        | some i => .ok (f.stat i)
  | .lexists p, f, r, f' => f' = f ∧ r = .ok (f.names p).isSome
  | .openRead p, f, r, f' =>
      f' = f ∧ r = match f.names p with
        | none => .error .noEntry
        | some i => if (f.nodes i).kind = .symlink then .error .loop else .ok i
  | .openFile p, f, r, f' =>
      f' = f ∧ match f.names p with
        | none => r = .error .noEntry
        | some i =>
            if (f.nodes i).kind = .symlink then r = .error .noEntry ∨ ∃ j, r = .ok j else r = .ok i
  | .openNew p, f, r, f' =>
      match f.names p with
      | some _ => f' = f ∧ r = .error .exists
      | none => r = .ok f.used ∧ ∃ node : Node, node.kind = .regular ∧ node.bytes = [] ∧
          f' = f.create p node
  | .fstat fd, f, r, f' => f' = f ∧ r = .ok (f.stat fd)
  | .readAll fd, f, r, f' => f' = f ∧ r = .ok (f.nodes fd).bytes
  | .readHead fd n, f, r, f' => f' = f ∧ r = .ok ((f.nodes fd).bytes.take n)
  | .write fd data, f, r, f' =>
      ∃ n mtime ctime, n ≤ data.length ∧ (data ≠ [] → n ≠ 0) ∧ r = .ok n ∧
        f' = f.setNode fd { f.nodes fd with
          bytes := (f.nodes fd).bytes ++ data.take n, mtime := mtime, ctime := ctime }
  | .fchmod fd mode, f, r, f' =>
      ∃ ctime, r = .ok () ∧ f' = f.setNode fd { f.nodes fd with mode := mode, ctime := ctime }
  | .fchown fd uid gid, f, r, f' =>
      ∃ ctime, r = .ok () ∧
        f' = f.setNode fd { f.nodes fd with uid := uid, gid := gid, ctime := ctime }
  | .fsync _, f, r, f' => f' = f ∧ r = .ok ()
  | .rename src dst, f, r, f' =>
      f' = f ∧ (r = .error .noSyscall ∨ r = .error .invalid) ∨
      match f.names src, f.names dst with
      | none, _ => f' = f ∧ r = .error .noEntry
      | some _, some _ => f' = f ∧ r = .error .exists
      | some i, none => r = .ok () ∧ ∃ ctime, f' = ((f.setName src none).setName dst
          (some i)).setNode i { f.nodes i with ctime := ctime }
  | .link src dst, f, r, f' =>
      match f.names src, f.names dst with
      | none, _ => f' = f ∧ r = .error .noEntry
      | some _, some _ => f' = f ∧ r = .error .exists
      | some i, none => r = .ok () ∧ ∃ ctime, f' = (f.setName dst (some i)).setNode i
          { f.nodes i with links := (f.nodes i).links + 1, ctime := ctime }
  | .unlink p, f, r, f' =>
      match f.names p with
      | none => f' = f ∧ r = .error .noEntry
      | some i =>
          if (f.nodes i).kind = .directory then ∃ n, f' = f ∧ r = .error (.other n)
          else r = .ok () ∧ ∃ ctime, f' = (f.setName p none).setNode i
            { f.nodes i with links := (f.nodes i).links - 1, ctime := ctime }
  | .replace src dst, f, r, f' =>
      match f.names src with
      | none => f' = f ∧ r = .error .noEntry
      | some i =>
          match f.names dst with
          | none => r = .ok () ∧ ∃ ctime, f' = ((f.setName src none).setName dst
              (some i)).setNode i { f.nodes i with ctime := ctime }
          | some j =>
              if j = i then f' = f ∧ r = .ok ()
              else if (f.nodes j).kind = .directory then ∃ n, f' = f ∧ r = .error (.other n)
              else r = .ok () ∧ ∃ ctime ctime', f' = (((f.setName src none).setName dst
                (some i)).setNode i { f.nodes i with ctime := ctime }).setNode j
                  { f.nodes j with links := (f.nodes j).links - 1, ctime := ctime' }
  | .chmod p mode, f, r, f' =>
      match f.names p with
      | none => f' = f ∧ r = .error .noEntry
      | some i => ∃ ctime, r = .ok () ∧
          f' = f.setNode i { f.nodes i with mode := mode, ctime := ctime }
  | .openDir _, f, r, f' => f' = f ∧ r = .ok ()
  | .fsyncDir _, f, r, f' => f' = f ∧ r = .ok ()

/-! ## What stays the same -/

end Files

/-- The file is the same but for its time of change and its link count. -/
structure Node.Same (n n' : Node) : Prop where
  kind : n'.kind = n.kind
  device : n'.device = n.device
  bytes : n'.bytes = n.bytes
  mode : n'.mode = n.mode
  uid : n'.uid = n.uid
  gid : n'.gid = n.gid
  mtime : n'.mtime = n.mtime

theorem Node.Same.refl (n : Node) : n.Same n := ⟨rfl, rfl, rfl, rfl, rfl, rfl, rfl⟩

theorem Node.Same.trans {n n' n'' : Node} (h : n.Same n') (h' : n'.Same n'') : n.Same n'' :=
  ⟨h'.kind.trans h.kind, h'.device.trans h.device, h'.bytes.trans h.bytes, h'.mode.trans h.mode,
    h'.uid.trans h.uid, h'.gid.trans h.gid, h'.mtime.trans h.mtime⟩

namespace Files

/-- Every name leads to a file that is in use. -/
def WF (f : Files N) : Prop := ∀ p i, f.names p = some i → i < f.used

/-- The files of `f` are still there, under whatever names. -/
structure Keeps (f f' : Files N) : Prop where
  used : f.used ≤ f'.used
  nodes : ∀ i, i < f.used → (f.nodes i).Same (f'.nodes i)

/-- The files of `f` are untouched; there may be more. -/
structure Extends (f f' : Files N) : Prop where
  used : f.used ≤ f'.used
  nodes : ∀ i, i < f.used → f'.nodes i = f.nodes i

/-- Only the contents and attributes of one open file differ. -/
structure OnlyNode (u : Nat) (f f' : Files N) : Prop where
  names : f'.names = f.names
  used : f'.used = f.used
  nodes : ∀ i, i ≠ u → f'.nodes i = f.nodes i
  kind : (f'.nodes u).kind = (f.nodes u).kind

variable {f f' f'' : Files N}

theorem Keeps.refl (f : Files N) : f.Keeps f := ⟨le_rfl, fun _ _ => .refl _⟩

theorem Keeps.trans (h : f.Keeps f') (h' : f'.Keeps f'') : f.Keeps f'' :=
  ⟨h.used.trans h'.used,
    fun i hi => (h.nodes i hi).trans (h'.nodes i (lt_of_lt_of_le hi h.used))⟩

theorem Extends.keeps (h : f.Extends f') : f.Keeps f' :=
  ⟨h.used, fun i hi => by rw [h.nodes i hi]; exact .refl _⟩

theorem OnlyNode.refl (u : Nat) (f : Files N) : f.OnlyNode u f := ⟨rfl, rfl, fun _ _ => rfl, rfl⟩

theorem OnlyNode.trans {u : Nat} (h : f.OnlyNode u f') (h' : f'.OnlyNode u f'') :
    f.OnlyNode u f'' :=
  ⟨h'.names.trans h.names, h'.used.trans h.used,
    fun i hi => (h'.nodes i hi).trans (h.nodes i hi), h'.kind.trans h.kind⟩

/-- A new file is written to without touching the old ones. -/
theorem Extends.onlyNode {u : Nat} (h : f.Extends f') (hu : f.used ≤ u) (h' : f'.OnlyNode u f'') :
    f.Extends f'' :=
  ⟨h'.used ▸ h.used,
    fun i hi => (h'.nodes i (by omega)).trans (h.nodes i hi)⟩

theorem keeps_setNode {i : Nat} {node : Node} (h : (f.nodes i).Same node) :
    f.Keeps (f.setNode i node) := by
  refine ⟨le_rfl, ?_⟩
  intro j _
  by_cases hj : j = i
  · subst hj
    simpa [setNode] using h
  · simpa [setNode, hj] using Node.Same.refl _

theorem onlyNode_setNode {u : Nat} {node : Node} (h : node.kind = (f.nodes u).kind) :
    f.OnlyNode u (f.setNode u node) :=
  ⟨rfl, rfl, fun i hi => by simp [setNode, hi], by simpa [setNode] using h⟩

variable [DecidableEq N]

theorem keeps_setName (f : Files N) (p : N) (i : Option Nat) : f.Keeps (f.setName p i) :=
  ⟨le_rfl, fun _ _ => .refl _⟩

theorem extends_create (f : Files N) (p : N) (node : Node) : f.Extends (f.create p node) := by
  refine ⟨Nat.le_succ _, ?_⟩
  intro i hi
  simp [create, Nat.ne_of_lt hi]

end Files

end Elyra.Posix
