import Elyra.Counting.Representatives
import Elyra.Fanotify.Policy

set_option autoImplicit false

/-! # Fanotify marks

`add_mark` and `add_marks` of `FanotifyInterface` (`monitor/fanotify/syscalls.py`). With the scope
`mount`, a path is skipped when a mark was added for its device before, as the policy's `mark_targets`
says. A mark covers one mount, and one device can have several mounts: the first listed path of each
device gets its mount marked, once, and the others are covered where they lie on that same mount. -/

namespace Elyra.Fanotify

open Elyra.Python Elyra.Counting

inductive MarkScope where
  | mount
  | inode
  deriving DecidableEq, Repr

/-- What `os.stat` of a path finds: the mount the path lies on, and `st_dev`. The subvolumes of one mount
    can have device numbers of their own. -/
structure PathStat (M : Type) where
  mount : M
  device : Nat

/-- The part of the host that `add_mark` asks. `M` are the mounts. -/
structure MarkHost (M : Type) where
  libc : Bool
  cwd : Except Exc PyStr
  /-- `os.stat` of an absolute path. -/
  stat : PyStr → Except Exc (PathStat M)
  isDir : PyStr → Bool
  /-- The `FanotifySystemError` for a `fanotify_mark` that fails. -/
  markError : MarkScope → PyStr → Option Exc

/-- What `fanotify_mark` puts a mark on. -/
inductive Mark (M : Type) where
  | mount (m : M)
  | inode (path : PyStr)

/-- The fields of the interface that marking reads, and the marks of its descriptor. -/
structure FanotifyInterface (M : Type) where
  fd : Int
  markScope : MarkScope
  markedDevices : Finset Nat
  markedPaths : Finset PyStr
  marks : List (Mark M)

/-- `os.path.abspath`. -/
def abspath (cwd : Except Exc PyStr) (path : PyStr) : Except Exc PyStr :=
  if isAbs path then .ok (normpath path) else cwd.map fun dir => normpath (joinPath dir path)

variable {M : Type}

namespace FanotifyInterface

/-- An initialised interface that has marked nothing. -/
def fresh (scope : MarkScope) (fd : Nat) : FanotifyInterface M := ⟨fd, scope, ∅, ∅, []⟩

/-- The test of the scope for a path that was marked before. -/
def isMarked (i : FanotifyInterface M) (device : Nat) (resolved : PyStr) : Bool :=
  match i.markScope with
  | .mount => decide (device ∈ i.markedDevices)
  | .inode => decide (resolved ∈ i.markedPaths)

/-- What `FAN_MARK_ADD` marks. -/
def target (i : FanotifyInterface M) (m : M) (resolved : PyStr) : Mark M :=
  match i.markScope with
  | .mount => .mount m
  | .inode => .inode resolved

def addMark (h : MarkHost M) (path : PyStr) : Py (FanotifyInterface M) Bool := do
  let i ← get
  if i.fd < 0 then throw ⟨.runtimeError, py "fanotify interface is not initialized"⟩
  if !h.libc then throw ⟨.osError, py "fanotify requires a Linux libc host"⟩
  let resolved ← Py.eval (abspath h.cwd path)
  let metadata ← Py.eval (h.stat resolved)
  if i.isMarked metadata.device resolved then return false
  if i.markScope = .inode ∧ !h.isDir resolved then throw ⟨.other (py "NotADirectoryError"), resolved⟩
  match h.markError i.markScope resolved with
  | some error => throw error
  | none =>
      set { i with
        markedDevices := insert metadata.device i.markedDevices
        markedPaths := insert resolved i.markedPaths
        marks := i.marks ++ [i.target metadata.mount resolved] }
      return true

def addMarks (h : MarkHost M) : List PyStr → Py (FanotifyInterface M) (List PyStr)
  | [] => return []
  | path :: paths => do
      if ← addMark h path then
        let resolved ← Py.eval (abspath h.cwd path)
        return resolved :: (← addMarks h paths)
      else addMarks h paths

end FanotifyInterface

/-! ## Which mounts are marked -/

/-- The path exists, on the mount and with the device number of `s`. -/
def LiesOn (h : MarkHost M) (path : PyStr) (s : PathStat M) : Prop :=
  ∃ resolved, abspath h.cwd path = .ok resolved ∧ h.stat resolved = .ok s

/-- The path is the first of the list with its device number. -/
def FirstOf (h : MarkHost M) (paths : List PyStr) (path : PyStr) (s : PathStat M) : Prop :=
  LiesOn h path s ∧ ∃ before after, paths = before ++ path :: after ∧
    ∀ path' ∈ before, ∀ s', LiesOn h path' s' → s'.device ≠ s.device

/-- The interface has marked the mounts of `ms`, and remembers the device numbers. -/
structure Marked (i : FanotifyInterface M) (ms : List (PathStat M)) : Prop where
  opened : 0 ≤ i.fd
  scope : i.markScope = .mount
  devices : ∀ d, d ∈ i.markedDevices ↔ d ∈ ms.map PathStat.device
  marks : i.marks = ms.map fun s => .mount s.mount

variable {h : MarkHost M}

/-- One path: the mount it lies on is marked if its device number is new. -/
theorem addMark_spec (hlibc : h.libc = true) (hmark : ∀ path, h.markError .mount path = none)
    {i : FanotifyInterface M} {ms : List (PathStat M)} (hi : Marked i ms) {path : PyStr}
    {s : PathStat M} (hs : LiesOn h path s) :
    ∃ b i', FanotifyInterface.addMark h path i = .ok b i' ∧ Marked i' (keep PathStat.device ms s) := by
  obtain ⟨resolved, habs, hstat⟩ := hs
  have hfd : ¬ i.fd < 0 := not_lt.2 hi.opened
  have hknown : i.isMarked s.device resolved = decide (s.device ∈ ms.map PathStat.device) := by
    simp only [FanotifyInterface.isMarked, hi.scope, hi.devices]
  by_cases hdev : s.device ∈ ms.map PathStat.device
  · refine ⟨false, i, ?_, ?_⟩
    · simp [FanotifyInterface.addMark, Bind.bind, EStateM.bind, run_get, Py.eval, habs, hstat,
        hfd, hlibc, hknown, hdev, Pure.pure, EStateM.pure]
    · rwa [keep, if_pos hdev]
  · refine ⟨true, { i with
        markedDevices := insert s.device i.markedDevices
        markedPaths := insert resolved i.markedPaths
        marks := i.marks ++ [i.target s.mount resolved] }, ?_, hi.opened, hi.scope, ?_, ?_⟩
    · simp [FanotifyInterface.addMark, Bind.bind, EStateM.bind, run_get, run_set, Py.eval, habs,
        hstat, hfd, hlibc, hknown, hdev, hi.scope, hmark, Pure.pure, EStateM.pure]
    · intro d
      rw [keep, if_neg hdev, List.map_append, List.map_singleton, Finset.mem_insert, hi.devices,
        List.mem_append, List.mem_singleton, or_comm]
    · rw [keep, if_neg hdev, List.map_append, List.map_singleton, hi.marks]
      simp only [FanotifyInterface.target, hi.scope]

/-- The paths one after the other keep one mount for each device number. -/
theorem addMarks_spec (hlibc : h.libc = true) (hmark : ∀ path, h.markError .mount path = none)
    {paths : List PyStr} {stats : List (PathStat M)} (hs : List.Forall₂ (LiesOn h) paths stats) :
    ∀ {i : FanotifyInterface M} {ms : List (PathStat M)}, Marked i ms →
      ∃ marked i', FanotifyInterface.addMarks h paths i = .ok marked i' ∧
        Marked i' (stats.foldl (keep PathStat.device) ms) := by
  induction hs with
  | nil => exact fun {i ms} hi => ⟨[], i, rfl, hi⟩
  | @cons path s paths stats hpath _ ih =>
      intro i ms hi
      obtain ⟨b, i₁, hadd, hi₁⟩ := addMark_spec hlibc hmark hi hpath
      obtain ⟨marked, i₂, hrest, hi₂⟩ := ih hi₁
      obtain ⟨resolved, habs, -⟩ := hpath
      cases b with
      | false =>
          refine ⟨marked, i₂, ?_, hi₂⟩
          simp [FanotifyInterface.addMarks, Bind.bind, EStateM.bind, hadd, hrest]
      | true =>
          refine ⟨resolved :: marked, i₂, ?_, hi₂⟩
          simp [FanotifyInterface.addMarks, Bind.bind, EStateM.bind, hadd, hrest, Py.eval, habs,
            Pure.pure, EStateM.pure]

/-- The mount of every path carries a mark. -/
def AllMarked (h : MarkHost M) (paths : List PyStr) (i : FanotifyInterface M) : Prop :=
  ∀ path ∈ paths, ∀ s, LiesOn h path s → Mark.mount s.mount ∈ i.marks

/-- `add_marks` on a fresh interface of scope `mount`. -/
structure MarksEach (h : MarkHost M) (paths : List PyStr) (i : FanotifyInterface M) : Prop where
  /-- No device number is marked twice: each mark is that of the first path of a device number. -/
  once : ∃ ms : List (PathStat M), i.marks = ms.map (fun s => .mount s.mount) ∧
    (ms.map PathStat.device).Nodup ∧ ∀ s, s ∈ ms ↔ ∃ path, FirstOf h paths path s
  /-- The device of each path has a mount that is marked, and it is one that a path lies on. -/
  device : ∀ path ∈ paths, ∀ s, LiesOn h path s →
    ∃ s', Mark.mount s'.mount ∈ i.marks ∧ s'.device = s.device ∧ ∃ path' ∈ paths, LiesOn h path' s'
  /-- The mounts of all paths are marked exactly if on each lies the first path of a device number. -/
  every : AllMarked h paths i ↔ ∀ path ∈ paths, ∀ s, LiesOn h path s →
    ∃ path' s', FirstOf h paths path' s' ∧ s'.mount = s.mount
  /-- Where all of a mount has one device number, no mount carries two marks, and all the mounts listed
      are marked exactly if no two of them are of one device. -/
  oneDevice : (∀ path ∈ paths, ∀ path' ∈ paths, ∀ s s', LiesOn h path s → LiesOn h path' s' →
      s.mount = s'.mount → s.device = s'.device) →
    i.marks.Nodup ∧ (AllMarked h paths i ↔ ∀ path ∈ paths, ∀ path' ∈ paths, ∀ s s', LiesOn h path s →
      LiesOn h path' s' → s.device = s'.device → s.mount = s'.mount)

theorem LiesOn.unique {path : PyStr} {s s' : PathStat M} (hs : LiesOn h path s)
    (hs' : LiesOn h path s') : s = s' := by
  obtain ⟨resolved, habs, hstat⟩ := hs
  obtain ⟨resolved', habs', hstat'⟩ := hs'
  obtain rfl := Except.ok.inj (habs.symm.trans habs')
  exact Except.ok.inj (hstat.symm.trans hstat')

/-- What `os.stat` finds for a list of existing paths. -/
theorem exists_stats {paths : List PyStr} (hexist : ∀ path ∈ paths, ∃ s, LiesOn h path s) :
    ∃ stats : List (PathStat M), List.Forall₂ (LiesOn h) paths stats ∧
      ∀ s, s ∈ stats ↔ ∃ path ∈ paths, LiesOn h path s := by
  induction paths with
  | nil => exact ⟨[], .nil, fun s => by simp⟩
  | cons path paths ih =>
      obtain ⟨⟨s, hs⟩, hrest⟩ := List.forall_mem_cons.1 hexist
      obtain ⟨stats, hall, hmem⟩ := ih hrest
      refine ⟨s :: stats, .cons hs hall, ?_⟩
      intro s'
      rw [List.mem_cons, hmem, List.exists_mem_cons_iff]
      exact or_congr_left ⟨fun hss => hss ▸ hs, fun hs' => hs'.unique hs⟩

section Pairs

variable {α β : Type} {R : α → β → Prop}

theorem exists_of_forall₂ {as : List α} {bs : List β} (h : List.Forall₂ R as bs) {a : α}
    (ha : a ∈ as) : ∃ b ∈ bs, R a b := by
  induction h with
  | nil => cases ha
  | cons hab _ ih =>
      rcases List.mem_cons.1 ha with rfl | ha
      · exact ⟨_, List.mem_cons_self, hab⟩
      · obtain ⟨b, hb, hr⟩ := ih ha
        exact ⟨b, List.mem_cons_of_mem _ hb, hr⟩

theorem forall₂_split {as : List α} {before after : List β} {b : β}
    (h : List.Forall₂ R as (before ++ b :: after)) :
    ∃ before' a after', as = before' ++ a :: after' ∧ List.Forall₂ R before' before ∧ R a b := by
  have hbefore := List.forall₂_take_append _ _ _ h
  obtain ⟨a, after', hab, -, hdrop⟩ :=
    List.forall₂_cons_right_iff.1 (List.forall₂_drop_append _ _ _ h)
  exact ⟨_, a, after', by rw [← hdrop, List.take_append_drop], hbefore, hab⟩

end Pairs

/-- What is kept belongs to the first paths of the device numbers. -/
theorem mem_kept_iff {paths : List PyStr} {stats : List (PathStat M)}
    (hall : List.Forall₂ (LiesOn h) paths stats) {s : PathStat M} :
    s ∈ representatives PathStat.device stats ↔ ∃ path, FirstOf h paths path s := by
  rw [mem_representatives_iff]
  constructor
  · rintro ⟨before, after, rfl, hbefore⟩
    obtain ⟨before', path, after', rfl, hfirst, hs⟩ := forall₂_split hall
    refine ⟨path, hs, before', after', rfl, ?_⟩
    intro path' hpath' s' hs'
    obtain ⟨t, ht, hlies⟩ := exists_of_forall₂ hfirst hpath'
    exact hs'.unique hlies ▸ hbefore t ht
  · rintro ⟨path, hs, before, after, rfl, hbefore⟩
    obtain ⟨before', s', after', rfl, hfirst, hs'⟩ := forall₂_split hall.flip
    obtain rfl := hs.unique hs'
    refine ⟨before', after', rfl, ?_⟩
    intro t ht
    obtain ⟨path', hpath', hlies⟩ := exists_of_forall₂ hfirst ht
    exact hbefore path' hpath' t hlies

theorem FirstOf.mem {paths : List PyStr} {path : PyStr} {s : PathStat M} (h' : FirstOf h paths path s) :
    path ∈ paths := by
  obtain ⟨-, before, after, rfl, -⟩ := h'
  exact List.mem_append_right _ List.mem_cons_self

/-- **What `add_marks` covers.** Each device number is marked once, through the first path that has it;
    all the mounts listed are marked exactly if each of them has such a path. -/
theorem addMarks_covers (h : MarkHost M) (paths : List PyStr) (fd : Nat) (hlibc : h.libc = true)
    (hexist : ∀ path ∈ paths, ∃ s, LiesOn h path s)
    (hmark : ∀ path, h.markError .mount path = none) :
    ∃ marked i', FanotifyInterface.addMarks h paths (.fresh .mount fd) = .ok marked i' ∧
      MarksEach h paths i' := by
  obtain ⟨stats, hall, hmem⟩ := exists_stats hexist
  have hfresh : Marked (.fresh .mount fd : FanotifyInterface M) [] :=
    ⟨Int.natCast_nonneg fd, rfl, fun d => by simp [FanotifyInterface.fresh], rfl⟩
  obtain ⟨marked, i', hrun, hi'⟩ := addMarks_spec hlibc hmark hall hfresh
  have hmarks : i'.marks =
      (representatives PathStat.device stats).map fun s => .mount s.mount := hi'.marks
  have hmem' : ∀ m, Mark.mount m ∈ i'.marks ↔ ∃ path s, FirstOf h paths path s ∧ s.mount = m := by
    intro m
    rw [hmarks, List.mem_map]
    constructor
    · rintro ⟨s, hs, heq⟩
      obtain ⟨path, hfirst⟩ := (mem_kept_iff hall).1 hs
      exact ⟨path, s, hfirst, Mark.mount.inj heq⟩
    · rintro ⟨path, s, hfirst, rfl⟩
      exact ⟨s, (mem_kept_iff hall).2 ⟨path, hfirst⟩, rfl⟩
  have hfirst : ∀ path ∈ paths, ∀ s, LiesOn h path s →
      ∃ path' s', FirstOf h paths path' s' ∧ s'.device = s.device := by
    intro path hpath s hs
    obtain ⟨s', hs', hdev⟩ : ∃ s' ∈ representatives PathStat.device stats, s'.device = s.device :=
      exists_representative ((hmem s).2 ⟨path, hpath, hs⟩)
    obtain ⟨path', hfirst⟩ := (mem_kept_iff hall).1 hs'
    exact ⟨path', s', hfirst, hdev⟩
  have hevery : AllMarked h paths i' ↔ ∀ path ∈ paths, ∀ s, LiesOn h path s →
      ∃ path' s', FirstOf h paths path' s' ∧ s'.mount = s.mount := by
    unfold AllMarked
    simp only [hmem']
  refine ⟨marked, i', hrun, ⟨_, hmarks, (represents stats).nodup, fun s => mem_kept_iff hall⟩, ?_, hevery, ?_⟩
  · intro path hpath s hs
    obtain ⟨path', s', hfirst, hdev⟩ := hfirst path hpath s hs
    exact ⟨s', (hmem' _).2 ⟨path', s', hfirst, rfl⟩, hdev, path', hfirst.mem, hfirst.1⟩
  · intro hone
    constructor
    · rw [hmarks, List.nodup_map_iff_inj_on (representatives_nodup stats)]
      intro s hs s' hs' heq
      obtain ⟨path, hpath⟩ := (mem_kept_iff hall).1 hs
      obtain ⟨path', hpath'⟩ := (mem_kept_iff hall).1 hs'
      have hdev := hone path hpath.mem path' hpath'.mem s s' hpath.1 hpath'.1 (Mark.mount.inj heq)
      exact List.inj_on_of_nodup_map (represents stats).nodup hs hs' hdev
    · rw [hevery]
      constructor
      · intro hcov path hpath path' hpath' s s' hs hs' hdev
        obtain ⟨q, t, hq, ht⟩ := hcov path hpath s hs
        obtain ⟨q', t', hq', ht'⟩ := hcov path' hpath' s' hs'
        -- the two first paths have the device of the two paths, so they are one
        have hdevs : t.device = t'.device :=
          (hone q hq.mem path hpath t s hq.1 hs ht).trans
            (hdev.trans (hone q' hq'.mem path' hpath' t' s' hq'.1 hs' ht').symm)
        have hsame : t = t' := List.inj_on_of_nodup_map (represents stats).nodup
          ((mem_kept_iff hall).2 ⟨q, hq⟩) ((mem_kept_iff hall).2 ⟨q', hq'⟩) hdevs
        rw [← ht, ← ht', hsame]
      · intro hmounts path hpath s hs
        obtain ⟨path', s', hpath', hdev⟩ := hfirst path hpath s hs
        exact ⟨path', s', hpath', hmounts path' hpath'.mem path hpath s' s hpath'.1 hs hdev⟩

/-- A host with the mounts 0 on `/` and 1 on `/mnt`. What lies below `/mnt/sub` is a subvolume with a
    device number of its own. -/
def twoMounts (root mnt sub : Nat) : MarkHost Nat where
  libc := true
  cwd := .ok (py "/")
  stat path := .ok <|
    if (py "/mnt/sub").isPrefixOf path then ⟨1, sub⟩
    else if (py "/mnt").isPrefixOf path then ⟨1, mnt⟩
    else ⟨0, root⟩
  isDir _ := true
  markError _ _ := none

/-- Mounts of two devices are both marked, the second for each of its two subvolumes. -/
theorem marks_of_two_devices :
    ∃ marked i', FanotifyInterface.addMarks (twoMounts 5 6 7) [py "/tmp", py "/mnt", py "/mnt/sub"]
        (.fresh .mount 3) = .ok marked i' ∧
      MarksEach (twoMounts 5 6 7) [py "/tmp", py "/mnt", py "/mnt/sub"] i' := by
  refine addMarks_covers (twoMounts 5 6 7) _ 3 rfl ?_ fun _ => rfl
  simp only [List.forall_mem_cons, List.not_mem_nil, IsEmpty.forall_iff, forall_const, and_true]
  exact ⟨⟨⟨0, 5⟩, py "/tmp", rfl, rfl⟩, ⟨⟨1, 6⟩, py "/mnt", rfl, rfl⟩, ⟨1, 7⟩, py "/mnt/sub", rfl, rfl⟩

/-- A second mount of the same device stays without a mark. -/
theorem bind_mount_unmarked :
    (∃ marked i', FanotifyInterface.addMarks (twoMounts 7 7 7) [py "/tmp", py "/mnt"]
        (.fresh .mount 3) = .ok marked i' ∧ i'.marks = [.mount 0]) ∧
      LiesOn (twoMounts 7 7 7) (py "/mnt") ⟨1, 7⟩ := by
  exact ⟨⟨_, _, rfl, rfl⟩, py "/mnt", rfl, rfl⟩

end Elyra.Fanotify
