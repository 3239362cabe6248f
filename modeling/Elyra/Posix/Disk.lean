import Elyra.Python.Dict
import Elyra.Posix.Files

set_option autoImplicit false

/-! # A disk

A file system of finitely many names and files that can be computed with. `Disk.reply` gives each call
one of the answers `Files.answers` leaves open (`reply_sound`): a write takes all the data, `renameat2`
is supported, and time stands still. -/

namespace Elyra.Posix

open Elyra.Python (lookup)

structure Disk (N : Type) where
  entries : List (N × Nat)
  nodes : List Node
  deriving DecidableEq

def emptyNode : Node := ⟨.regular, 0, [], 0o600, 0, 0, 0, 0, 1⟩

namespace Disk

variable {N D : Type} [DecidableEq N]

def files (d : Disk N) : Files N where
  names p := lookup p d.entries
  nodes i := d.nodes.getD i emptyNode
  used := d.nodes.length

def setName (d : Disk N) (p : N) (o : Option Nat) : Disk N :=
  { d with entries := (o.map fun i => (p, i)).toList ++ d.entries.filter (·.1 ≠ p) }

def setNode (d : Disk N) (i : Nat) (node : Node) : Disk N := { d with nodes := d.nodes.set i node }

def create (d : Disk N) (p : N) (node : Node) : Disk N :=
  { (d.setName p (some d.nodes.length)) with nodes := d.nodes ++ [node] }

theorem lookup_filter_ne (p q : N) (entries : List (N × Nat)) :
    lookup q (entries.filter (·.1 ≠ p)) = if q = p then none else lookup q entries := by
  induction entries with
  | nil => simp [lookup]
  | cons e entries ih =>
      obtain ⟨k, v⟩ := e
      by_cases hk : k = p
      · subst hk
        rw [List.filter_cons_of_neg (by simp), ih]
        by_cases hq : q = k
        · simp [hq]
        · simp [lookup, hq, Ne.symm hq]
      · rw [List.filter_cons_of_pos (by simp [hk])]
        by_cases hq : q = p
        · subst hq
          simp only [lookup, if_neg hk, ih, if_true]
        · simp only [lookup, ih, if_neg hq]

theorem files_setName (d : Disk N) (p : N) (o : Option Nat) :
    (d.setName p o).files = d.files.setName p o := by
  have hnames : (d.setName p o).files.names = Function.update d.files.names p o := by
    funext q
    cases o with
    | none =>
        simp only [files, setName, Option.map_none, Option.toList_none, List.nil_append,
          lookup_filter_ne, Function.update_apply]
    | some i =>
        simp only [files, setName, Option.map_some, Option.toList_some, List.singleton_append, lookup,
          lookup_filter_ne, Function.update_apply]
        by_cases hq : q = p
        · simp [hq]
        · simp [hq, Ne.symm hq]
  simp only [Files.setName, ← hnames]
  rfl

theorem files_setNode {d : Disk N} {i : Nat} (hi : i < d.nodes.length) (node : Node) :
    (d.setNode i node).files = d.files.setNode i node := by
  have hnodes : (d.setNode i node).files.nodes = Function.update d.files.nodes i node := by
    funext j
    simp only [files, setNode, List.getD_eq_getElem?_getD, Function.update_apply]
    by_cases hj : j = i
    · subst hj
      simp [hi]
    · simp [hj, List.getElem?_set_ne (Ne.symm hj)]
  have hused : (d.setNode i node).files.used = d.files.used := by simp [files, setNode]
  simp only [Files.setNode, ← hnodes, ← hused]
  rfl

theorem files_create (d : Disk N) (p : N) (node : Node) :
    (d.create p node).files = d.files.create p node := by
  have hnames : (d.create p node).files.names =
      Function.update d.files.names p (some d.nodes.length) :=
    congrArg Files.names (d.files_setName p (some d.nodes.length))
  have hnodes : (d.create p node).files.nodes = Function.update d.files.nodes d.nodes.length node := by
    funext j
    simp only [files, create, List.getD_eq_getElem?_getD, Function.update_apply]
    by_cases hj : j = d.nodes.length
    · subst hj
      simp
    · rcases lt_or_gt_of_ne hj with hlt | hgt
      · simp [hj, List.getElem?_append_left hlt]
      · rw [List.getElem?_eq_none (by simp; omega), List.getElem?_eq_none (by omega), if_neg hj]
  have hused : (d.create p node).files.used = d.files.used + 1 := by simp [files, create]
  simp only [Files.create]
  calc (d.create p node).files = ⟨(d.create p node).files.names, (d.create p node).files.nodes,
        (d.create p node).files.used⟩ := rfl
    _ = _ := by rw [hnames, hnodes, hused]; rfl

/-- The answer the disk gives, and the disk after it. -/
def reply : (c : FileCall N D) → Disk N → Except Errno c.Answer × Disk N
  | .lstat p, d =>
      match d.files.names p with
      | none => (.error .noEntry, d)
      | some i => (.ok (d.files.stat i), d)
  | .lexists p, d => (.ok (d.files.names p).isSome, d)
  | .openRead p, d =>
      match d.files.names p with
      | none => (.error .noEntry, d)
      | some i => if (d.files.nodes i).kind = .symlink then (.error .loop, d) else (.ok i, d)
  | .openFile p, d =>
      match d.files.names p with
      | none => (.error .noEntry, d)
      | some i => if (d.files.nodes i).kind = .symlink then (.error .noEntry, d) else (.ok i, d)
  | .openNew p, d =>
      match d.files.names p with
      | some _ => (.error .exists, d)
      | none => (.ok d.nodes.length, d.create p emptyNode)
  | .fstat fd, d => (.ok (d.files.stat fd), d)
  | .readAll fd, d => (.ok (d.files.nodes fd).bytes, d)
  | .readHead fd n, d => (.ok ((d.files.nodes fd).bytes.take n), d)
  | .write fd data, d =>
      (.ok data.length, d.setNode fd { d.files.nodes fd with
        bytes := (d.files.nodes fd).bytes ++ data })
  | .fchmod fd mode, d => (.ok (), d.setNode fd { d.files.nodes fd with mode := mode })
  | .fchown fd uid gid, d => (.ok (), d.setNode fd { d.files.nodes fd with uid := uid, gid := gid })
  | .fsync _, d => (.ok (), d)
  | .rename src dst, d =>
      match d.files.names src, d.files.names dst with
      | none, _ => (.error .noEntry, d)
      | some _, some _ => (.error .exists, d)
      | some i, none => (.ok (), (d.setName src none).setName dst (some i))
  | .link src dst, d =>
      match d.files.names src, d.files.names dst with
      | none, _ => (.error .noEntry, d)
      | some _, some _ => (.error .exists, d)
      | some i, none => (.ok (), (d.setName dst (some i)).setNode i
          { d.files.nodes i with links := (d.files.nodes i).links + 1 })
  | .unlink p, d =>
      match d.files.names p with
      | none => (.error .noEntry, d)
      | some i =>
          if (d.files.nodes i).kind = .directory then (.error (.other 21), d)
          else (.ok (), (d.setName p none).setNode i
            { d.files.nodes i with links := (d.files.nodes i).links - 1 })
  | .replace src dst, d =>
      match d.files.names src with
      | none => (.error .noEntry, d)
      | some i =>
          match d.files.names dst with
          | none => (.ok (), (d.setName src none).setName dst (some i))
          | some j =>
              if j = i then (.ok (), d)
              else if (d.files.nodes j).kind = .directory then (.error (.other 21), d)
              else (.ok (), ((d.setName src none).setName dst (some i)).setNode j
                { d.files.nodes j with links := (d.files.nodes j).links - 1 })
  | .chmod p mode, d =>
      match d.files.names p with
      | none => (.error .noEntry, d)
      | some i => (.ok (), d.setNode i { d.files.nodes i with mode := mode })
  | .openDir _, d => (.ok (), d)
  | .fsyncDir _, d => (.ok (), d)

/-- The file is on the disk. -/
def holds (d : Disk N) (i : Nat) : Bool := decide (i < d.nodes.length)

/-- The open files and the names the call is about lead to files on the disk. -/
def valid : FileCall N D → Disk N → Bool
  | .write fd _, d => d.holds fd
  | .fchmod fd _, d => d.holds fd
  | .fchown fd _ _, d => d.holds fd
  | .rename src _, d => (d.files.names src).all d.holds
  | .link src _, d => (d.files.names src).all d.holds
  | .unlink p, d => (d.files.names p).all d.holds
  | .replace src dst, d => (d.files.names src).all d.holds && (d.files.names dst).all d.holds
  | .chmod p _, d => (d.files.names p).all d.holds
  | _, _ => true

omit [DecidableEq N] in
theorem holds_of_all {d : Disk N} {o : Option Nat} {i : Nat} (h : o.all d.holds = true)
    (ho : o = some i) : i < d.nodes.length := by
  subst ho
  simpa [holds] using h

/-- **The disk is a file system.** -/
theorem reply_sound (c : FileCall N D) {d : Disk N} (h : d.valid c = true) :
    d.files.answers c (d.reply c).1 (d.reply c).2.files := by
  cases c with
  | lstat p =>
      simp only [Files.answers, reply]
      cases d.files.names p <;> exact ⟨rfl, rfl⟩
  | lexists p => exact ⟨rfl, rfl⟩
  | openRead p =>
      simp only [Files.answers, reply]
      cases d.files.names p with
      | none => exact ⟨rfl, rfl⟩
      | some i =>
          by_cases hk : (d.files.nodes i).kind = .symlink
          · simp [hk]
          · simp [hk]
  | openFile p =>
      simp only [Files.answers, reply]
      cases d.files.names p with
      | none => exact ⟨rfl, rfl⟩
      | some i =>
          by_cases hk : (d.files.nodes i).kind = .symlink
          · simp [hk]
          · simp [hk]
  | openNew p =>
      simp only [Files.answers, reply]
      cases d.files.names p with
      | some i => exact ⟨rfl, rfl⟩
      | none => exact ⟨rfl, emptyNode, rfl, rfl, d.files_create p emptyNode⟩
  | fstat fd => exact ⟨rfl, rfl⟩
  | readAll fd => exact ⟨rfl, rfl⟩
  | readHead fd n => exact ⟨rfl, rfl⟩
  | write fd data =>
      have hfd : fd < d.nodes.length := by simpa [valid, holds] using h
      refine ⟨data.length, (d.files.nodes fd).mtime, (d.files.nodes fd).ctime, le_rfl, ?_, rfl, ?_⟩
      · exact fun hne hlen => hne (List.length_eq_zero_iff.1 hlen)
      · rw [List.take_length]
        exact files_setNode hfd _
  | fchmod fd mode =>
      have hfd : fd < d.nodes.length := by simpa [valid, holds] using h
      exact ⟨(d.files.nodes fd).ctime, rfl, files_setNode hfd _⟩
  | fchown fd uid gid =>
      have hfd : fd < d.nodes.length := by simpa [valid, holds] using h
      exact ⟨(d.files.nodes fd).ctime, rfl, files_setNode hfd _⟩
  | fsync fd => exact ⟨rfl, rfl⟩
  | rename src dst =>
      refine .inr ?_
      simp only [reply]
      cases hs : d.files.names src with
      | none => exact ⟨rfl, rfl⟩
      | some i =>
          cases hd : d.files.names dst with
          | some j => exact ⟨rfl, rfl⟩
          | none =>
              refine ⟨rfl, (d.files.nodes i).ctime, ?_⟩
              rw [files_setName, files_setName]
              simp only [Files.setNode, Files.setName]
              rw [Function.update_eq_self]
  | link src dst =>
      simp only [Files.answers, reply]
      cases hs : d.files.names src with
      | none => exact ⟨rfl, rfl⟩
      | some i =>
          have hi := holds_of_all h hs
          cases hd : d.files.names dst with
          | some j => exact ⟨rfl, rfl⟩
          | none =>
              refine ⟨rfl, (d.files.nodes i).ctime, ?_⟩
              rw [← files_setName]
              exact files_setNode (d := d.setName dst (some i)) hi _
  | unlink p =>
      simp only [Files.answers, reply]
      cases hp : d.files.names p with
      | none => exact ⟨rfl, rfl⟩
      | some i =>
          have hi := holds_of_all h hp
          by_cases hk : (d.files.nodes i).kind = .directory
          · simp only [hk, if_true]
            exact ⟨21, by simp⟩
          · simp only [hk, if_false]
            refine ⟨trivial, (d.files.nodes i).ctime, ?_⟩
            rw [← files_setName]
            exact files_setNode (d := d.setName p none) hi _
  | replace src dst =>
      obtain ⟨hsrc, hdst⟩ : (d.files.names src).all d.holds = true ∧
          (d.files.names dst).all d.holds = true := by simpa [valid] using h
      simp only [Files.answers, reply]
      cases hs : d.files.names src with
      | none => exact ⟨rfl, rfl⟩
      | some i =>
          cases hd : d.files.names dst with
          | none =>
              refine ⟨rfl, (d.files.nodes i).ctime, ?_⟩
              dsimp only
              rw [files_setName, files_setName]
              simp only [Files.setNode, Files.setName]
              rw [Function.update_eq_self]
          | some j =>
              have hj := holds_of_all hdst hd
              dsimp only
              by_cases hji : j = i
              · simp [hji]
              · simp only [hji, if_false]
                by_cases hk : (d.files.nodes j).kind = .directory
                · simp only [hk, if_true]
                  exact ⟨21, by simp⟩
                · simp only [hk, if_false]
                  refine ⟨trivial, (d.files.nodes i).ctime, (d.files.nodes j).ctime, ?_⟩
                  rw [files_setNode (d := (d.setName src none).setName dst (some i)) hj,
                    files_setName, files_setName]
                  simp only [Files.setNode, Files.setName]
                  rw [Function.update_eq_self]
  | chmod p mode =>
      simp only [Files.answers, reply]
      cases hp : d.files.names p with
      | none => exact ⟨rfl, rfl⟩
      | some i => exact ⟨(d.files.nodes i).ctime, rfl, files_setNode (holds_of_all h hp) _⟩
  | openDir dir => exact ⟨rfl, rfl⟩
  | fsyncDir dir => exact ⟨rfl, rfl⟩

end Disk

end Elyra.Posix
