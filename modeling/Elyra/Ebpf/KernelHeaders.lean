import Elyra.Python.Realpath
import Elyra.Python.Words

set_option autoImplicit false

/-! # Kernel headers

`_header_release`, `_header_candidates` and `assess_kernel_headers` of `monitor/ebpf/kernel_headers.py`.
A tree without metadata of its own has the running release if that occurs anywhere in the name of its
directory. The name of a tree for another release can contain it, so such a tree is taken for the
running kernel's exactly where a path leads to it (`other_release_taken_iff`). -/

namespace Elyra.Ebpf.KernelHeaders

open Elyra.Python

/-- The files of the host. -/
structure Host where
  isDir : PurePath → Bool
  isFile : PurePath → Bool
  isSymlink : PurePath → Bool
  /-- `_safe_target`: `path.resolve(strict=True)`, `none` for an `OSError`. -/
  safeTarget : PurePath → Option PurePath
  /-- `_read_small_text`. -/
  readSmallText : PurePath → Option PyStr

structure VirtualizationInfo where
  detected : Bool
  kind : PyStr
  evidence : List PyStr

inductive Status where
  | unsupportedPlatform
  | missing
  | invalid
  | mismatch
  | ready
  deriving DecidableEq, Repr

inductive Issue where
  | linuxEbpfHeadersNotApplicable
  | runningKernelModuleDirectoryMissing
  | buildLinkDangling
  | buildLinkMissing
  | buildTargetNotAUsableHeaderTree
  | buildHeadersDoNotMatchRunningKernel
  | virtualizedHeaderConflict
  | headerReleaseNotExposed
  deriving DecidableEq, Repr

/-- The fields with the text of a path hold the path. -/
structure KernelHeaderAssessment where
  status : Status
  system : PyStr
  kernelRelease : PyStr
  moduleDirectory : PurePath
  buildPath : PurePath
  buildTarget : Option PurePath
  headerRoot : Option PurePath
  headerRelease : Option PyStr
  virtualization : VirtualizationInfo
  issues : List Issue
  localCandidates : List PurePath

/-- `path / name`. -/
def child (path : PurePath) (name : PyStr) : PurePath := .parse (osJoin path.text name)

/-- `path.name`. -/
def nameOf (path : PurePath) : PyStr := path.parts.getLast?.getD []

variable (h : Host)

def headerTreeIsUsable (root : PurePath) : Bool :=
  h.isDir root && h.isFile (child root (py "Makefile")) && h.isDir (child root (py "include"))

/-! ## The release of a tree -/

/-- `UTS_RELEASE\s+"([^"]+)"` at the start of the text: the group. -/
def matchUtsRelease (text : PyStr) : Option PyStr :=
  if (py "UTS_RELEASE").isPrefixOf text then
    let rest := text.drop (py "UTS_RELEASE").length
    match rest.takeWhile isSpace, rest.dropWhile isSpace with
    | _ :: _, 34 :: quoted =>
        match quoted.takeWhile (· ≠ 34), quoted.dropWhile (· ≠ 34) with
        | c :: value, 34 :: _ => some (c :: value)
        | _, _ => none
    | _, _ => none
  else none

/-- `re.search(r'UTS_RELEASE\s+"([^"]+)"', text)`. -/
def searchUtsRelease (text : PyStr) : Option PyStr := text.tails.findSome? matchUtsRelease

/-- `[A-Za-z0-9._+~-]` -/
def isReleaseChar (c : Nat) : Bool :=
  isDigit c || (65 ≤ c && c ≤ 90) || (97 ≤ c && c ≤ 122) || c == 46 || c == 95 || c == 43 ||
    c == 126 || c == 45

/-- The release a metadata file gives. -/
def releaseOfText (text : PyStr) : Option PyStr :=
  match searchUtsRelease text with
  | some release => some release
  | none =>
      match textLines (strip text) with
      | line :: _ =>
          if strip line ≠ [] ∧ (strip line).all isReleaseChar = true then some (strip line) else none
      | [] => none

/-- The two metadata files of a tree. -/
def metadataFiles (root : PurePath) : List PurePath :=
  [child (child (child root (py "include")) (py "generated")) (py "utsrelease.h"),
    child (child (child root (py "include")) (py "config")) (py "kernel.release")]

/-- `_header_release`. -/
def headerRelease (root : PurePath) (kernelRelease : PyStr) : Option PyStr :=
  match (metadataFiles root).findSome? fun file => (h.readSmallText file).bind releaseOfText with
  | some release => some release
  | none => if kernelRelease <:+: nameOf root then some kernelRelease else none

/-! ## Candidates -/

/-- The paths of `_header_candidates`. -/
def candidatePaths (kernelRelease : PyStr) (sourceRoot : PurePath) : List PurePath :=
  [child sourceRoot (py "linux-headers-" ++ kernelRelease),
    child (child sourceRoot (py "kernels")) kernelRelease,
    child sourceRoot (py "kernel-devel-" ++ kernelRelease),
    child sourceRoot kernelRelease]

/-- `_safe_target(candidate) or candidate`. -/
def resolved (candidate : PurePath) : PurePath := (h.safeTarget candidate).getD candidate

/-- The body of the loop: the paths seen and the usable ones. -/
def candidateStep (kernelRelease : PyStr) (found : List PurePath × List PurePath)
    (candidate : PurePath) : List PurePath × List PurePath :=
  let path := resolved h candidate
  if path ∈ found.1 then found
  else
    (found.1 ++ [path],
      if headerTreeIsUsable h path = true ∧ headerRelease h path kernelRelease = some kernelRelease
        then found.2 ++ [path] else found.2)

def headerCandidates (kernelRelease : PyStr) (sourceRoot : PurePath) : List PurePath :=
  ((candidatePaths kernelRelease sourceRoot).foldl (candidateStep h kernelRelease) ([], [])).2

/-! ## The assessment -/

/-- `kernel_release or platform.release()`, the system and the virtualization are given. -/
def assessKernelHeaders (release : PyStr) (moduleRoot sourceRoot : PurePath) (system : PyStr)
    (vm : VirtualizationInfo) : KernelHeaderAssessment :=
  let moduleDirectory := child moduleRoot release
  let buildPath := child moduleDirectory (py "build")
  if system ≠ py "Linux" then
    { status := .unsupportedPlatform, system := system, kernelRelease := release
      moduleDirectory := moduleDirectory, buildPath := buildPath, buildTarget := none
      headerRoot := none, headerRelease := none, virtualization := vm
      issues := [.linuxEbpfHeadersNotApplicable], localCandidates := [] }
  else
    let candidates := headerCandidates h release sourceRoot
    let issues := if h.isDir moduleDirectory then [] else [.runningKernelModuleDirectoryMissing]
    match h.safeTarget buildPath with
    | none =>
        { status := .missing, system := system, kernelRelease := release
          moduleDirectory := moduleDirectory, buildPath := buildPath, buildTarget := none
          headerRoot := none, headerRelease := none, virtualization := vm
          issues := issues ++ [if h.isSymlink buildPath then .buildLinkDangling else .buildLinkMissing]
          localCandidates := candidates }
    | some target =>
        if headerTreeIsUsable h target = false then
          { status := .invalid, system := system, kernelRelease := release
            moduleDirectory := moduleDirectory, buildPath := buildPath
            buildTarget := some target, headerRoot := some target, headerRelease := none
            virtualization := vm, issues := issues ++ [.buildTargetNotAUsableHeaderTree]
            localCandidates := candidates }
        else
          let detected := headerRelease h target release
          if detected.isSome ∧ detected ≠ some release then
            { status := .mismatch, system := system, kernelRelease := release
              moduleDirectory := moduleDirectory, buildPath := buildPath
              buildTarget := some target, headerRoot := some target
              headerRelease := detected, virtualization := vm
              issues := issues ++ [.buildHeadersDoNotMatchRunningKernel] ++
                if vm.detected then [.virtualizedHeaderConflict] else []
              localCandidates := candidates }
          else
            { status := .ready, system := system, kernelRelease := release
              moduleDirectory := moduleDirectory, buildPath := buildPath
              buildTarget := some target, headerRoot := some target
              headerRelease := detected, virtualization := vm
              issues := issues ++ if detected = none then [.headerReleaseNotExposed] else []
              localCandidates := candidates }

/-! ## Trees without metadata -/

variable {h} {root : PurePath} {release : PyStr}

/-- Without metadata files the name of the directory decides. -/
theorem headerRelease_of_absent (habsent : ∀ file ∈ metadataFiles root, h.readSmallText file = none) :
    headerRelease h root release = some release ↔ release <:+: nameOf root := by
  have hnone : (metadataFiles root).findSome?
      (fun file => (h.readSmallText file).bind releaseOfText) = none := by
    rw [List.findSome?_eq_none_iff]
    intro file hfile
    rw [habsent file hfile, Option.bind_none]
  simp only [headerRelease, hnone]
  split
  · next hin => exact iff_of_true rfl hin
  · next hout => exact iff_of_false nofun hout

/-- What the loop has found after some candidates. -/
structure Found (h : Host) (release : PyStr) (found : List PurePath × List PurePath)
    (candidates : List PurePath) : Prop where
  seen : ∀ path, path ∈ found.1 ↔ ∃ c ∈ candidates, resolved h c = path
  usable : ∀ path, path ∈ found.2 ↔ path ∈ found.1 ∧ headerTreeIsUsable h path = true ∧
    headerRelease h path release = some release

theorem Found.step {found : List PurePath × List PurePath} {candidates : List PurePath}
    (hf : Found h release found candidates) (c : PurePath) :
    Found h release (candidateStep h release found c) (candidates ++ [c]) := by
  have hmem : ∀ path, (∃ c' ∈ candidates ++ [c], resolved h c' = path) ↔
      path ∈ found.1 ∨ path = resolved h c := by
    intro path
    rw [hf.seen]
    constructor
    · rintro ⟨c', hc', heq⟩
      rcases List.mem_append.1 hc' with hc' | hc'
      · exact .inl ⟨c', hc', heq⟩
      · exact .inr (List.mem_singleton.1 hc' ▸ heq.symm)
    · rintro (⟨c', hc', heq⟩ | heq)
      · exact ⟨c', List.mem_append_left _ hc', heq⟩
      · exact ⟨c, List.mem_append_right _ (List.mem_singleton_self _), heq.symm⟩
  unfold candidateStep
  by_cases hseen : resolved h c ∈ found.1
  · rw [if_pos hseen]
    refine ⟨fun path => ?_, hf.usable⟩
    rw [hmem]
    exact ⟨.inl, fun hp => hp.elim id fun heq => heq ▸ hseen⟩
  · rw [if_neg hseen]
    refine ⟨fun path => ?_, fun path => ?_⟩
    · rw [hmem, List.mem_append, List.mem_singleton]
    · simp only [List.mem_append, List.mem_singleton]
      split
      · next hgood =>
          rw [List.mem_append, List.mem_singleton, hf.usable]
          constructor
          · rintro (⟨hp, hu⟩ | rfl)
            · exact ⟨.inl hp, hu⟩
            · exact ⟨.inr rfl, hgood⟩
          · rintro ⟨hp | rfl, hu⟩
            · exact .inl ⟨hp, hu⟩
            · exact .inr rfl
      · next hbad =>
          rw [hf.usable]
          constructor
          · exact fun ⟨hp, hu⟩ => ⟨.inl hp, hu⟩
          · rintro ⟨hp | rfl, hu⟩
            · exact ⟨hp, hu⟩
            · exact absurd hu hbad

theorem Found.run {candidates rest : List PurePath} {found : List PurePath × List PurePath}
    (hf : Found h release found candidates) :
    Found h release (rest.foldl (candidateStep h release) found) (candidates ++ rest) := by
  induction rest generalizing found candidates with
  | nil => simpa using hf
  | cons c rest ih =>
      have := ih (hf.step c)
      rwa [List.append_assoc, List.singleton_append] at this

/-- What `_header_candidates` lists. -/
theorem mem_headerCandidates {sourceRoot : PurePath} :
    root ∈ headerCandidates h release sourceRoot ↔
      (∃ c ∈ candidatePaths release sourceRoot, resolved h c = root) ∧
        headerTreeIsUsable h root = true ∧ headerRelease h root release = some release := by
  have hempty : Found h release ([], []) [] := ⟨fun path => by simp, fun path => by simp⟩
  have hrun : Found h release ((candidatePaths release sourceRoot).foldl (candidateStep h release)
      ([], [])) ([] ++ candidatePaths release sourceRoot) := hempty.run
  rw [List.nil_append] at hrun
  rw [headerCandidates, hrun.usable, hrun.seen]

section Assessment

variable {moduleRoot sourceRoot : PurePath} {system : PyStr} {vm : VirtualizationInfo}

/-- `/lib/modules/<release>/build`. -/
def buildPath (moduleRoot : PurePath) (release : PyStr) : PurePath :=
  child (child moduleRoot release) (py "build")

/-- When the assessment gives the running release to a tree. -/
theorem assessKernelHeaders_reports :
    ((assessKernelHeaders h release moduleRoot sourceRoot system vm).headerRoot = some root ∧
      (assessKernelHeaders h release moduleRoot sourceRoot system vm).headerRelease = some release) ↔
    (system = py "Linux" ∧ h.safeTarget (buildPath moduleRoot release) = some root) ∧
      headerTreeIsUsable h root = true ∧ headerRelease h root release = some release := by
  unfold assessKernelHeaders
  by_cases hsystem : system = py "Linux"
  · simp only [hsystem, ne_eq, not_true_eq_false, if_false, true_and]
    rw [← buildPath]
    cases htarget : h.safeTarget (buildPath moduleRoot release) with
    | none => simp
    | some target =>
        simp only [Option.some.injEq]
        split
        · next hbad =>
            refine iff_of_false (fun hr => nomatch hr.2) ?_
            rintro ⟨rfl, hgood, -⟩
            rw [hbad] at hgood
            cases hgood
        · next hgood =>
            rw [Bool.not_eq_false] at hgood
            split
            · next hother =>
                refine iff_of_false (fun hr => hother.2 hr.2) ?_
                rintro ⟨rfl, -, hrel⟩
                exact hother.2 hrel
            · simp only [Option.some.injEq]
              constructor
              · rintro ⟨rfl, hrel⟩
                exact ⟨rfl, hgood, hrel⟩
              · rintro ⟨rfl, -, hrel⟩
                exact ⟨rfl, hrel⟩
  · rw [if_pos hsystem]
    exact iff_of_false (fun hr => nomatch hr.1) fun hr => hsystem hr.1.1

/-- A path that the running release names leads to the tree. -/
def LeadsTo (h : Host) (release : PyStr) (moduleRoot sourceRoot : PurePath) (system : PyStr)
    (root : PurePath) : Prop :=
  (system = py "Linux" ∧ h.safeTarget (buildPath moduleRoot release) = some root) ∨
    ∃ c ∈ candidatePaths release sourceRoot, resolved h c = root

/-- **When a tree of another release is taken for the running one**: a path leads to it, and the running
    release occurs in the name of its directory, which is the other release after a mark
    (`linux-headers-`, `kernel-devel-` or nothing). -/
theorem other_release_taken_iff (h : Host) (release other mark system : PyStr)
    (moduleRoot sourceRoot root : PurePath) (vm : VirtualizationInfo)
    (husable : headerTreeIsUsable h root = true)
    (habsent : ∀ file ∈ metadataFiles root, h.readSmallText file = none)
    (hname : nameOf root = mark ++ other) :
    (¬ ((assessKernelHeaders h release moduleRoot sourceRoot system vm).headerRoot = some root ∧
        (assessKernelHeaders h release moduleRoot sourceRoot system vm).headerRelease =
          some release) ∧
      root ∉ headerCandidates h release sourceRoot) ↔
    ¬ (release <:+: mark ++ other ∧ LeadsTo h release moduleRoot sourceRoot system root) := by
  rw [assessKernelHeaders_reports, mem_headerCandidates, headerRelease_of_absent habsent, hname,
    LeadsTo]
  simp only [husable, true_and]
  rw [← not_or, ← or_and_right, and_comm]

end Assessment

/-! ### A shorter release -/

/-- The headers of `5.15.0-91-generic` in `/usr/src`, where every build link leads. -/
def genericTree : PurePath := .parse (py "/usr/src/linux-headers-5.15.0-91-generic")

def genericHost : Host where
  isDir _ := true
  isFile path := path == child genericTree (py "Makefile")
  isSymlink path := nameOf path == py "build"
  safeTarget path := if nameOf path = py "build" then some genericTree else none
  readSmallText _ := none

/-- On a kernel of another series the tree is not taken. -/
theorem other_series_not_taken :
    (¬ ((assessKernelHeaders genericHost (py "6.2.0") (.parse (py "/lib/modules"))
            (.parse (py "/usr/src")) (py "Linux") ⟨false, py "NONE", []⟩).headerRoot = some genericTree ∧
        (assessKernelHeaders genericHost (py "6.2.0") (.parse (py "/lib/modules"))
            (.parse (py "/usr/src")) (py "Linux") ⟨false, py "NONE", []⟩).headerRelease =
          some (py "6.2.0")) ∧
      genericTree ∉ headerCandidates genericHost (py "6.2.0") (.parse (py "/usr/src"))) ↔
    ¬ (py "6.2.0" <:+: py "linux-headers-" ++ py "5.15.0-91-generic" ∧
      LeadsTo genericHost (py "6.2.0") (.parse (py "/lib/modules")) (.parse (py "/usr/src"))
        (py "Linux") genericTree) :=
  other_release_taken_iff genericHost (py "6.2.0") (py "5.15.0-91-generic") (py "linux-headers-")
    (py "Linux") (.parse (py "/lib/modules")) (.parse (py "/usr/src")) genericTree
    ⟨false, py "NONE", []⟩ (by decide +kernel) (fun _ _ => rfl) (by decide +kernel)

/-- On the kernel `5.15.0` it is, with the status `READY`. -/
theorem shorter_release_takes_tree :
    headerTreeIsUsable genericHost genericTree = true ∧
      (∀ file ∈ metadataFiles genericTree, genericHost.readSmallText file = none) ∧
      nameOf genericTree = py "linux-headers-" ++ py "5.15.0-91-generic" ∧
      (assessKernelHeaders genericHost (py "5.15.0") (.parse (py "/lib/modules"))
        (.parse (py "/usr/src")) (py "Linux") ⟨false, py "NONE", []⟩).headerRoot = some genericTree ∧
      (assessKernelHeaders genericHost (py "5.15.0") (.parse (py "/lib/modules"))
        (.parse (py "/usr/src")) (py "Linux") ⟨false, py "NONE", []⟩).headerRelease =
          some (py "5.15.0") := by
  refine ⟨by decide +kernel, fun _ _ => rfl, by decide +kernel, by decide +kernel, by decide +kernel⟩

end Elyra.Ebpf.KernelHeaders
