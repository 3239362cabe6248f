import Elyra.Python.Raising
import Elyra.Python.Realpath
import Elyra.Service.Authorization

set_option autoImplicit false

/-! # Manual scans

`authorize_manual_scan_path` of `service/authorization.py`. The ownership of the file is checked on the
path as it is given, its place on the resolved path; on a tree that does not change both speak of the
same file. The daemon may search every directory. -/

namespace Elyra.Service

open Elyra.Python Elyra.Posix

/-- What the function sees of the system. -/
structure ScanHost where
  accounts : Accounts
  /-- `pwd.getpwuid(uid).pw_dir`, for the users of the database. -/
  homeOf : Int → PyStr
  tree : Tree
  /-- The working directory, a path without links. -/
  cwd : PyStr
  /-- The links inside each other at which `RecursionError` is raised. -/
  recursionLimit : Nat
  /-- The text of an `OSError` about a path. -/
  str : PathError → PyStr → PyStr

/-- What the function raises. -/
inductive ScanPathError where
  | scanTarget (text : PyStr)
  | resolve (e : ResolveError)
  /-- From the question whether the peer is privileged. -/
  | privileges (e : AuthorizeExc)
  /-- `ValueError`. -/
  | value
  deriving DecidableEq, Repr

/-- `os.fsencode(text)` gives a text without a null byte. -/
def isFsText (text : PyStr) : Bool :=
  text.all fun c => c != 0 && (c < 0xd800 || 0xdc80 ≤ c && c ≤ 0xdcff || 0xdfff < c)

namespace ScanHost

/-- `Path(text).resolve(strict=strict)`. -/
def resolvePath (h : ScanHost) (strict : Bool) (text : PyStr) : Except ResolveError PurePath :=
  let absolute := if text.head? = some 47 then text else h.cwd ++ 47 :: text
  resolve h.tree strict h.recursionLimit (PurePath.parse absolute).text

/-- `requester.home_directory`. -/
def homeDirectory (h : ScanHost) (r : Requester) : Except ResolveError (Option PurePath) :=
  match h.accounts.getpwuid r.uid with
  | none => .ok none
  | some _ => (h.resolvePath false (h.homeOf r.uid)).map some

/-- `allowed_manual_scan_roots`. -/
def allowedManualScanRoots (h : ScanHost) (r : Requester) : Except ResolveError (List PurePath) := do
  let home ← h.homeDirectory r
  let mine := match home with
    | none => []
    | some home => [home.text, osJoin (py "/media") (r.username h.accounts),
        osJoin (py "/run/media") (r.username h.accounts)]
  ([py "/tmp", py "/var/tmp", py "/run/user/" ++ intText r.uid] ++ mine).mapM (h.resolvePath false)

/-- The end of `authorize_manual_scan_path`, with the file's `stat` and its resolved path. -/
def checkRequester (h : ScanHost) (r : Requester) (metadata : Inode) (resolved : PurePath) :
    Except ScanPathError PurePath := do
  if ← (r.mayAct h.accounts).mapError .privileges then
    return resolved
  if metadata.uid ≠ r.uid then
    throw (.scanTarget (py "Non-privileged peers may scan only files they own"))
  let roots ← (h.allowedManualScanRoots r).mapError .resolve
  if roots.any resolved.isBeneath then
    return resolved
  throw (.scanTarget (py "Manual scan target is outside the permitted roots"))

/-- The checks of the file itself. -/
def checkTarget (metadata : Inode) (maximumSize : Int) : Except ScanPathError Unit :=
  match metadata.kind with
  | .symlink _ => .error (.scanTarget (py "Symbolic-link scan targets are not permitted"))
  | .regular =>
      if maximumSize < metadata.size then
        .error (.scanTarget (py "Manual scan target exceeds the " ++ intText maximumSize ++
          py "-byte IPC policy limit"))
      else .ok ()
  | _ => .error (.scanTarget (py "Manual scan target must be a regular file"))

/-- `candidate.lstat()`. -/
def lstatCandidate (h : ScanHost) (candidate : PurePath) : Except ScanPathError Nat :=
  if isFsText candidate.text = false then .error .value
  else
    match h.tree.lstat candidate.parts with
    | .ok i => .ok i
    | .error .noEntry => .error (.scanTarget (py "Manual scan target does not exist"))
    | .error e => .error (.scanTarget
        (py "Manual scan target cannot be inspected: " ++ h.str e candidate.text))

/-- `authorize_manual_scan_path`. -/
def authorizeManualScanPath (h : ScanHost) (r : Requester) (pathValue : PyStr) (maximumSize : Int) :
    Except ScanPathError PurePath := do
  if pathValue.head? ≠ some 47 then
    throw (.scanTarget (py "Manual scan paths must be absolute"))
  let candidate := PurePath.parse pathValue
  let i ← h.lstatCandidate candidate
  checkTarget (h.tree.inode i) maximumSize
  let resolved ← (resolve h.tree true h.recursionLimit candidate.text).mapError .resolve
  h.checkRequester r (h.tree.inode i) resolved

end ScanHost

/-! ## What a scan target is -/

/-- The path leads, without a link, to a regular file of the peer beneath one of the roots, the file
    that was checked. -/
structure Authorized (h : ScanHost) (r : Requester) (pathValue : PyStr) (maximumSize : Int)
    (p : PurePath) (i : Nat) : Prop where
  checked : h.tree.lstat (PurePath.parse pathValue).parts = .ok i
  same : h.tree.lstat p.parts = .ok i
  resolved : h.tree.Descends h.tree.root p.parts i
  regular : (h.tree.inode i).kind = .regular
  owned : (h.tree.inode i).uid = r.uid
  size : ((h.tree.inode i).size : Int) ≤ maximumSize
  beneath : ∃ roots root, h.allowedManualScanRoots r = .ok roots ∧ root ∈ roots ∧
    root.slashes = p.slashes ∧ root.parts <+: p.parts

theorem parse_slash_free (text : PyStr) : ∀ c ∈ (PurePath.parse text).parts, 47 ∉ c := by
  intro c hc
  exact slash_not_mem_splitSlash text c (List.mem_of_mem_filter hc)

/-- Walking the text of a path is walking its parts. -/
theorem walks_slashed {t : Tree} {n : Nat} {comps : List PyStr} {e : Nat}
    (hcomps : ∀ c ∈ comps, 47 ∉ c) (h : t.Walks t.root comps e) :
    t.Walks t.root (splitSlash (slashed n comps)) e := by
  induction n with
  | zero =>
      by_cases hne : comps = []
      · subst hne
        exact .stay t.root_dir (.inl rfl) h
      · rw [slashed, List.replicate_zero, List.nil_append, splitSlash_join hne hcomps]
        exact h
  | succ n ih =>
      have hcons : slashed (n + 1) comps = [] ++ 47 :: slashed n comps := rfl
      rw [hcons, splitSlash_append]
      exact .stay t.root_dir (.inl rfl) ih

section Checks

variable {h : ScanHost} {r : Requester} {i : Nat} {p q : PurePath} {metadata : Inode} {maximumSize : Int}

theorem lstatCandidate_ok (hok : h.lstatCandidate p = .ok i) : h.tree.lstat p.parts = .ok i := by
  unfold ScanHost.lstatCandidate at hok
  split_ifs at hok
  split at hok
  · next heq =>
    cases hok
    exact heq
  · exact nomatch hok
  · exact nomatch hok

theorem checkTarget_ok (hok : ScanHost.checkTarget metadata maximumSize = .ok ()) :
    metadata.kind = .regular ∧ (metadata.size : Int) ≤ maximumSize := by
  unfold ScanHost.checkTarget at hok
  split at hok
  · exact nomatch hok
  · next hkind =>
    split_ifs at hok with hsize
    exact ⟨hkind, not_lt.1 hsize⟩
  · exact nomatch hok

/-- What is asked of a peer without privileges. -/
theorem checkRequester_ok (hpriv : r.privileged h.accounts = false)
    (hok : h.checkRequester r metadata q = .ok p) : p = q ∧ metadata.uid = r.uid ∧
      ∃ roots root, h.allowedManualScanRoots r = .ok roots ∧ root ∈ roots ∧
        p.isBeneath root = true := by
  unfold ScanHost.checkRequester at hok
  obtain ⟨may, hmay, hok⟩ := bind_ok.1 hok
  have hmay := mapError_ok.1 hmay
  obtain rfl : may = false := by
    cases may with
    | false => rfl
    | true => simp [Requester.privileged, hmay] at hpriv
  rw [if_neg Bool.false_ne_true] at hok
  by_cases huid : metadata.uid = r.uid
  · rw [if_neg (not_not.2 huid)] at hok
    obtain ⟨roots, hroots, hok⟩ := bind_ok.1 hok
    by_cases hany : roots.any q.isBeneath = true
    · rw [if_pos hany] at hok
      obtain rfl := Except.ok.inj hok
      obtain ⟨root, hmem, hbeneath⟩ := List.any_eq_true.1 hany
      exact ⟨rfl, huid, roots, root, mapError_ok.1 hroots, hmem, hbeneath⟩
    · rw [if_neg hany] at hok
      exact nomatch hok
  · rw [if_pos huid] at hok
    exact nomatch hok

end Checks

/-- **A path that is authorised for a peer without privileges is one of the peer's files beneath one of
    its roots, and the file that was checked.** -/
theorem authorizeManualScanPath_sound {h : ScanHost} {r : Requester} {pathValue : PyStr}
    {maximumSize : Int} {p : PurePath} (hpriv : r.privileged h.accounts = false)
    (hok : h.authorizeManualScanPath r pathValue maximumSize = .ok p) :
    ∃ i, Authorized h r pathValue maximumSize p i := by
  unfold ScanHost.authorizeManualScanPath at hok
  by_cases habs : pathValue.head? = some 47
  · rw [if_neg (not_not.2 habs)] at hok
    obtain ⟨i, hi, hok⟩ := bind_ok.1 hok
    obtain ⟨⟨⟩, htarget, hok⟩ := bind_ok.1 hok
    obtain ⟨q, hq, hok⟩ := bind_ok.1 hok
    obtain ⟨rfl, huid, roots, root, hroots, hmem, hbeneath⟩ := checkRequester_ok hpriv hok
    obtain ⟨hregular, hsize⟩ := checkTarget_ok htarget
    have hlstat := lstatCandidate_ok hi
    have hwalks := Tree.walks_of_lstat hlstat (by simp [hregular]) (by simp [hregular])
    obtain ⟨-, hdesc⟩ := resolve_sound (mapError_ok.1 hq)
      (walks_slashed (parse_slash_free pathValue) hwalks)
    simp only [PurePath.isBeneath, Bool.and_eq_true, beq_iff_eq, List.isPrefixOf_iff_prefix] at hbeneath
    exact ⟨i, hlstat, hdesc.lstat, hdesc, hregular, huid, hsize, roots, root, hroots, hmem,
      hbeneath.1.symm, hbeneath.2⟩
  · rw [if_pos habs] at hok
    cases hok

/-! ## A file behind a link and `..` -/

def sampleEntries : List ((Nat × PyStr) × Nat) :=
  [((0, py "tmp"), 1), ((0, py "home"), 2), ((2, py "u"), 3), ((3, py "f"), 4), ((1, py "d"), 5)]

/-- `/home/u/f`, a file of the user 1000, and the link `/tmp/d` to `/home/u`. -/
def sampleTree : Tree where
  root := 0
  inode
    | 4 => ⟨.regular, 1000, 5⟩
    | 5 => ⟨.symlink (py "/home/u"), 1000, 7⟩
    | _ => ⟨.directory, 0, 4096⟩
  entry d name := lookup (d, name) sampleEntries
  parent d := if d = 3 then 2 else 0
  root_dir := rfl
  parent_root := rfl
  parent_entry := by
    intro d name i _ hentry hdir
    have hmem := mem_of_lookup hentry
    simp only [sampleEntries, List.mem_cons, Prod.mk.injEq, List.not_mem_nil, or_false] at hmem
    rcases hmem with ⟨⟨rfl, -⟩, rfl⟩ | ⟨⟨rfl, -⟩, rfl⟩ | ⟨⟨rfl, -⟩, rfl⟩ | ⟨⟨rfl, -⟩, rfl⟩ |
      ⟨⟨rfl, -⟩, rfl⟩
    · rfl
    · rfl
    · rfl
    · exact nomatch hdir
    · exact nomatch hdir
  parent_dir := by
    intro d _
    by_cases hd : d = 3
    · rw [if_pos hd]
      rfl
    · rw [if_neg hd]
      rfl
  entry_slash := by
    intro d name i hentry
    have hmem := mem_of_lookup hentry
    have hall : ∀ x ∈ sampleEntries, 47 ∉ x.1.2 := by decide
    exact hall _ hmem

def sampleHost : ScanHost where
  accounts := ⟨fun uid => if uid = 1000 then some (py "u") else none, fun _ => none, fun _ _ => .error .keyError⟩
  homeOf _ := py "/home/u"
  tree := sampleTree
  cwd := py "/"
  recursionLimit := 10
  str _ _ := []

theorem sample_authorized : ∃ i,
    Authorized sampleHost ⟨1, 1000, 1000⟩ (py "/tmp/d/../u/f") 10 ⟨1, [py "home", py "u", py "f"]⟩ i :=
  authorizeManualScanPath_sound (by decide) (by decide +kernel)

end Elyra.Service
