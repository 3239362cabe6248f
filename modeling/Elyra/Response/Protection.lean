import Elyra.Fanotify.Containment
import Elyra.Python.Floats
import Elyra.Response.Targets

set_option autoImplicit false
set_option linter.unusedSectionVars false

/-! # Protected paths

`_protected_path` and the test of `terminate` compare the normal form of a path with the prefixes as the
policy spells them; `_contains` of the fanotify policy compares normal forms. A protected path is one
whose components continue those of a prefix. The three tests find it exactly if one such prefix is
spelled well enough for the first two, and one is for the third. -/

namespace Elyra.Response

open Elyra.Python

variable {F : Type}

/-! ## The policy -/

/-- The fields that `validate` reads besides those of a response. -/
structure PolicySettings (F : Type) extends ResponsePolicy where
  policyStatus : PyStr
  terminateGraceSeconds : F
  killGraceSeconds : F

def configurationError (text : PyStr) : Exc := ⟨.other (py "ResponseConfigurationError"), text⟩

/-- `seconds <= 0`. -/
def notPositive [OrderedFloat F] (seconds : F) : Bool :=
  OrderedFloat.le seconds (PyFloat.ofToken (py "0.0"))

/-- `ResponsePolicy.validate`. -/
def PolicySettings.validate [OrderedFloat F] (p : PolicySettings F) : Except Exc Unit :=
  if p.policyStatus ≠ py "PROVISIONAL_NOT_CALIBRATED" then
    .error (configurationError
      (py "Stage 11 policy must be labelled PROVISIONAL_NOT_CALIBRATED"))
  else if notPositive p.terminateGraceSeconds || notPositive p.killGraceSeconds then
    .error (configurationError (py "process termination timeouts must be positive"))
  else if 0 ∉ p.protectedPids ∨ 1 ∉ p.protectedPids then
    .error (configurationError (py "PID 0 and PID 1 must remain protected"))
  else if ∃ start ∈ p.protectedPathPrefixes, start.head? ≠ some 47 then
    .error (configurationError (py "protected path prefixes must be absolute"))
  else .ok ()

theorem PolicySettings.absolute [OrderedFloat F] {p : PolicySettings F}
    (h : p.validate = .ok ()) : ∀ start ∈ p.protectedPathPrefixes, start.head? = some 47 := by
  intro start hstart
  by_contra hrelative
  have hexists : ∃ start ∈ p.protectedPathPrefixes, start.head? ≠ some 47 :=
    ⟨start, hstart, hrelative⟩
  rw [validate] at h
  simp only [if_pos hexists] at h
  split_ifs at h

/-! ## Inside a directory -/

/-- The components of the normal form continue those of the normal form of `start`. -/
def Inside (start path : PyStr) : Prop :=
  Fanotify.components (normpath start) <+: Fanotify.components (normpath path)

/-- The path is inside a protected prefix. -/
def Protected (policy : ResponsePolicy) (path : PyStr) : Prop :=
  ∃ start ∈ policy.protectedPathPrefixes, Inside start path

/-- `prefix.rstrip("/")`. -/
def stripSlashes (start : PyStr) : PyStr := (start.reverse.dropWhile (· == 47)).reverse

/-- The prefix is all slashes; or it is, up to slashes at its end, a normal form with as many leading
    slashes as the path, without any slash at its end if it is the path itself. -/
def WellSpelled (start path : PyStr) : Prop :=
  stripSlashes start = [] ∨
    normpath (stripSlashes start) = stripSlashes start ∧
      initialSlashes (stripSlashes start) = initialSlashes path ∧
        (stripSlashes start = start ∨ stripSlashes start ≠ normpath path)

theorem inside_iff {start path : PyStr} (hstart : start.head? = some 47)
    (hpath : path.head? = some 47) :
    Inside start path ↔ normalComponents start <+: normalComponents path := by
  rw [Inside, Fanotify.components_normpath hstart, Fanotify.components_normpath hpath]

/-! ## Slashes at the end -/

theorem stripSlashes_append (start : PyStr) :
    ∃ j, start = stripSlashes start ++ List.replicate j 47 := by
  refine ⟨(start.reverse.takeWhile (· == 47)).length, ?_⟩
  have hslashes : start.reverse.takeWhile (· == 47) =
      List.replicate (start.reverse.takeWhile (· == 47)).length 47 :=
    List.eq_replicate_iff.2 ⟨rfl, fun c hc => beq_iff_eq.1 (List.all_eq_true.1 List.all_takeWhile c hc)⟩
  have hparts := congrArg List.reverse
    (List.takeWhile_append_dropWhile (p := (· == 47)) (l := start.reverse))
  rw [List.reverse_append, List.reverse_reverse] at hparts
  rw [hslashes, List.reverse_replicate] at hparts
  exact hparts.symm

theorem stripSlashes_last (start : PyStr) : (stripSlashes start).getLast? ≠ some 47 := by
  rw [stripSlashes, List.getLast?_reverse]
  intro hhead
  have hnot := List.head?_dropWhile_not (· == 47) start.reverse
  rw [hhead] at hnot
  simp at hnot

theorem stripSlashes_of_last {start : PyStr} (h : start.getLast? ≠ some 47) :
    stripSlashes start = start := by
  obtain ⟨j, hj⟩ := stripSlashes_append start
  cases j with
  | zero => exact (hj.trans (List.append_nil _)).symm
  | succ j =>
      rw [List.replicate_succ', ← List.append_assoc] at hj
      rw [hj, List.getLast?_concat] at h
      exact absurd rfl h

theorem slashed_last {n : Nat} {comps : List PyStr} (hne : comps ≠ [])
    (hcomps : ∀ c ∈ comps, PlainName c) : (slashed n comps).getLast? ≠ some 47 := by
  intro hlast
  obtain ⟨s, hs⟩ := List.getLast?_eq_some_iff.1 hlast
  have hpieces := splitSlash_slashed (n := n) hcomps
  rw [hs, splitSlash_append, if_neg hne] at hpieces
  have hlasts := congrArg List.getLast? hpieces
  rw [List.getLast?_append_of_ne_nil _ hne, List.getLast?_append_of_ne_nil _ (splitSlash_ne_nil [])]
    at hlasts
  exact (hcomps [] (List.mem_of_getLast? hlasts.symm)).ne_nil rfl

/-- A normal form has no slash at its end, unless it is all slashes. -/
theorem stripSlashes_slashed {n : Nat} {comps : List PyStr} (hcomps : ∀ c ∈ comps, PlainName c)
    (h : stripSlashes (slashed n comps) ≠ []) :
    comps ≠ [] ∧ stripSlashes (slashed n comps) = slashed n comps := by
  have hne : comps ≠ [] := by
    rintro rfl
    refine h ?_
    have hall : slashed n [] = List.replicate n 47 := List.append_nil _
    rw [hall, stripSlashes, List.reverse_replicate, List.dropWhile_replicate]
    rfl
  exact ⟨hne, stripSlashes_of_last (slashed_last hne hcomps)⟩

/-- Slashes at the end add no component. -/
theorem normalComponents_append (r : PyStr) (j : Nat) :
    normalComponents (r ++ List.replicate j 47) = normalComponents r := by
  induction j with
  | zero => rw [List.replicate_zero, List.append_nil]
  | succ j ih =>
      have hlast : r ++ List.replicate (j + 1) 47 = (r ++ List.replicate j 47) ++ 47 :: [] := by
        rw [List.replicate_succ', List.append_assoc]
      have hempty : (splitSlash ([] : PyStr)).filter (· ≠ []) = [] := rfl
      rw [← ih, hlast, normalComponents, ← normComponents_filter, splitSlash_append,
        List.filter_append, hempty, List.append_nil, normComponents_filter, normalComponents]

theorem normalComponents_stripSlashes (start : PyStr) :
    normalComponents (stripSlashes start) = normalComponents start := by
  obtain ⟨j, hj⟩ := stripSlashes_append start
  exact (normalComponents_append (stripSlashes start) j).symm.trans (congrArg _ hj.symm)

theorem stripSlashes_head {start : PyStr} (h : start.head? = some 47)
    (hne : stripSlashes start ≠ []) : (stripSlashes start).head? = some 47 := by
  obtain ⟨j, hj⟩ := stripSlashes_append start
  rw [hj] at h
  cases hr : stripSlashes start with
  | nil => exact absurd hr hne
  | cons c r =>
      rw [hr] at h
      exact h

/-! ## The tests -/

section Tests

variable {start path : PyStr}

theorem isUnder_eq_true {n start : PyStr} :
    isUnder n start = true ↔ n = start ∨ stripSlashes start ++ [47] <+: n := by
  rw [isUnder, Bool.or_eq_true, beq_iff_eq, List.isPrefixOf_iff_prefix]
  rfl

/-- A normal form and its components. -/
theorem normpath_of_eq {r : PyStr} {n : Nat} {ds : List PyStr} (hn : n = 1 ∨ n = 2)
    (hds : ∀ c ∈ ds, PlainName c) (h : r = slashed n ds) :
    normpath r = r ∧ initialSlashes r = n ∧ normalComponents r = ds := by
  subst h
  exact ⟨normpath_slashed hn hds, initialSlashes_slashed hn hds, normalComponents_slashed hds⟩

/-- What the test of `_protected_path` finds is inside the prefix, and the prefix is well spelled. -/
theorem inside_of_isUnder (hstart : start.head? = some 47) (hpath : path.head? = some 47)
    (h : isUnder (normpath path) start = true) : Inside start path ∧ WellSpelled start path := by
  have hn := initialSlashes_cases hpath
  have hplain := normalComponents_plain path
  rw [inside_iff hstart hpath]
  by_cases hr : stripSlashes start = []
  · refine ⟨?_, .inl hr⟩
    rw [← normalComponents_stripSlashes, hr]
    exact List.nil_prefix
  rcases isUnder_eq_true.1 h with heq | hcut
  · have hnormal := normpath_eq hpath
    rw [heq] at hnormal
    have hsame : stripSlashes start = start := by
      rw [hnormal] at hr ⊢
      exact (stripSlashes_slashed hplain hr).2
    obtain ⟨hfix, hslashes, hcomps⟩ := normpath_of_eq hn hplain hnormal
    refine ⟨by rw [hcomps], .inr ⟨by rw [hsame, hfix], by rw [hsame, hslashes], .inl hsame⟩⟩
  · rw [normpath_eq hpath] at hcut
    obtain ⟨ds, tail, hds, htail, hcomps, heq⟩ :=
      cut_slashed hplain hr (stripSlashes_last start) hcut
    have hdsplain : ∀ c ∈ ds, PlainName c := fun c hc =>
      hplain c (hcomps ▸ List.mem_append_left _ hc)
    obtain ⟨hfix, hslashes, hdsof⟩ := normpath_of_eq hn hdsplain heq
    refine ⟨?_, .inr ⟨hfix, hslashes, .inr fun hpathEq => ?_⟩⟩
    · rw [← normalComponents_stripSlashes, hdsof, hcomps]
      exact List.prefix_append ds tail
    · have hwhole := (normpath_of_eq hn hplain (normpath_eq hpath)).2.2
      rw [← hpathEq, hdsof, hcomps] at hwhole
      exact htail (List.self_eq_append_right.1 hwhole)

theorem isUnder_of_inside (hstart : start.head? = some 47) (hpath : path.head? = some 47)
    (hinside : Inside start path) (hspelled : WellSpelled start path) :
    isUnder (normpath path) start = true := by
  rw [inside_iff hstart hpath] at hinside
  rw [isUnder_eq_true]
  have hn := initialSlashes_cases hpath
  by_cases hr : stripSlashes start = []
  · refine .inr ?_
    rw [hr, normpath_eq hpath]
    rcases hn with hn | hn <;> rw [hn]
    · exact List.prefix_append [47] _
    · exact ⟨47 :: List.intercalate [47] (normalComponents path), rfl⟩
  obtain ⟨hfix, hslashes, hend⟩ := hspelled.resolve_left hr
  have hnormal : stripSlashes start = slashed (initialSlashes path) (normalComponents start) := by
    rw [← hslashes, ← normalComponents_stripSlashes, ← normpath_eq (stripSlashes_head hstart hr), hfix]
  obtain ⟨tail, htail⟩ := hinside
  by_cases hnone : tail = []
  · rw [hnone, List.append_nil] at htail
    rw [htail, ← normpath_eq hpath] at hnormal
    exact .inl (hnormal.symm.trans (hend.resolve_right fun hne => hne hnormal))
  · refine .inr ?_
    have hds : normalComponents start ≠ [] := by
      intro hnil
      have hlast := stripSlashes_last start
      rw [hnormal, hnil] at hlast
      rcases hn with hn | hn <;> rw [hn] at hlast <;> exact hlast rfl
    rw [normpath_eq hpath, ← htail, slashed_append hds hnone, ← hnormal]
    exact ⟨_, List.append_assoc ..⟩


/-- **The test of `_protected_path` on one prefix.** -/
theorem isUnder_iff (hstart : start.head? = some 47) (hpath : path.head? = some 47) :
    isUnder (normpath path) start = true ↔ Inside start path ∧ WellSpelled start path :=
  ⟨inside_of_isUnder hstart hpath, fun h => isUnder_of_inside hstart hpath h.1 h.2⟩

/-- **The test of `_contains`**, on normal forms. -/
theorem contains_iff (hstart : start.head? = some 47) (hpath : path.head? = some 47) :
    Fanotify.contains (normpath start) (normpath path) = true ↔
      Inside start path ∧ initialSlashes start = 1 := by
  rw [Fanotify.contains_normpath hstart hpath, inside_iff hstart hpath, and_comm]

end Tests

/-! ## The three tests together -/

/-- The refusal of `terminate`. -/
def protectedExecutable : Exc :=
  safetyError (py "refusing to terminate an ELYRA protected executable")

/-- The path is protected exactly if it is inside a prefix: from quarantine, from termination, and for
    the containment test of the fanotify policy. -/
structure Protects (F : Type) (policy : ResponsePolicy) (path : PyStr) : Prop where
  file : protectedPath policy path = true ↔ Protected policy path
  /-- A process that may be terminated by its number is refused for its executable, -/
  process : ∀ (h : Host F) (expected : ProcessIdentity), expected.executablePath = path →
    expected.pid ∉ policy.protectedPids → expected.pid ≠ h.ownPid →
      (checkTermination h policy expected = .error protectedExecutable ↔ Protected policy path)
  /-- and no process with that executable is terminated. -/
  refused : Protected policy path → ∀ (h : Host F) (expected : ProcessIdentity),
    expected.executablePath = path → ∀ f : Frame, ∃ e, e.cls = .responseSafetyError ∧
      terminate h policy expected f = .error e f
  contained : (policy.protectedPathPrefixes.any fun start =>
    Fanotify.contains (normpath start) (normpath path)) = true ↔ Protected policy path

/-- If the path is inside some prefix, it is inside one that is well spelled, and inside one whose
    normal form has one leading slash. -/
def Spelled (policy : ResponsePolicy) (path : PyStr) : Prop :=
  Protected policy path →
    (∃ start ∈ policy.protectedPathPrefixes, Inside start path ∧ WellSpelled start path) ∧
      ∃ start ∈ policy.protectedPathPrefixes, Inside start path ∧ initialSlashes start = 1

section Policy

variable {policy : ResponsePolicy} {path : PyStr}

theorem protectedPath_iff (policy : ResponsePolicy) (hstart : ∀ start ∈ policy.protectedPathPrefixes, start.head? = some 47)
    (hpath : path.head? = some 47) :
    protectedPath policy path = true ↔
      ∃ start ∈ policy.protectedPathPrefixes, Inside start path ∧ WellSpelled start path := by
  rw [protectedPath, List.any_eq_true]
  constructor
  · rintro ⟨start, hmem, hunder⟩
    exact ⟨start, hmem, (isUnder_iff (hstart start hmem) hpath).1 hunder⟩
  · rintro ⟨start, hmem, hinside⟩
    exact ⟨start, hmem, (isUnder_iff (hstart start hmem) hpath).2 hinside⟩

theorem anyContains_iff (policy : ResponsePolicy) (hstart : ∀ start ∈ policy.protectedPathPrefixes, start.head? = some 47)
    (hpath : path.head? = some 47) :
    (policy.protectedPathPrefixes.any fun start =>
        Fanotify.contains (normpath start) (normpath path)) = true ↔
      ∃ start ∈ policy.protectedPathPrefixes, Inside start path ∧ initialSlashes start = 1 := by
  rw [List.any_eq_true]
  constructor
  · rintro ⟨start, hmem, hcontains⟩
    exact ⟨start, hmem, (contains_iff (hstart start hmem) hpath).1 hcontains⟩
  · rintro ⟨start, hmem, hinside⟩
    exact ⟨start, hmem, (contains_iff (hstart start hmem) hpath).2 hinside⟩

/-- The test of `terminate` is the one of `_protected_path`. -/
theorem checkTermination_iff {h : Host F} {expected : ProcessIdentity}
    (hpid : expected.pid ∉ policy.protectedPids) (hown : expected.pid ≠ h.ownPid) :
    checkTermination h policy expected = .error protectedExecutable ↔
      protectedPath policy expected.executablePath = true := by
  rw [checkTermination, if_neg (not_or.2 ⟨hpid, hown⟩)]
  by_cases hprotected : protectedPath policy expected.executablePath = true
  · rw [if_pos hprotected]
    exact ⟨fun _ => hprotected, fun _ => rfl⟩
  · rw [if_neg hprotected]
    refine ⟨fun herror => ?_, fun h => absurd h hprotected⟩
    split at herror
    · exact absurd (congrArg Exc.text (Except.error.inj herror)) (by decide)
    split at herror
    · exact absurd (congrArg Exc.text (Except.error.inj herror)) (by decide)
    · cases herror

theorem terminate_refuses {h : Host F} {expected : ProcessIdentity}
    (hprotected : protectedPath policy expected.executablePath = true) (f : Frame) :
    ∃ e, e.cls = .responseSafetyError ∧ terminate h policy expected f = .error e f := by
  have hcheck : ∃ text, checkTermination h policy expected = .error (safetyError text) := by
    rw [checkTermination]
    by_cases hpid : expected.pid ∈ policy.protectedPids ∨ expected.pid = h.ownPid
    · rw [if_pos hpid]
      exact ⟨_, rfl⟩
    · rw [if_neg hpid, if_pos hprotected]
      exact ⟨_, rfl⟩
  obtain ⟨text, hcheck⟩ := hcheck
  refine ⟨safetyError text, rfl, ?_⟩
  simp only [terminate, bind, EStateM.bind, Py.eval, hcheck]

/-- **Protected paths are protected** exactly if the policy spells its prefixes well enough for the
    path. -/
theorem protects_iff [OrderedFloat F] {settings : PolicySettings F}
    (hvalid : settings.validate = .ok ()) (hpath : path.head? = some 47) :
    Protects F settings.toResponsePolicy path ↔ Spelled settings.toResponsePolicy path := by
  have hstart := PolicySettings.absolute hvalid
  have hfile := protectedPath_iff settings.toResponsePolicy hstart hpath
  have hcontained := anyContains_iff settings.toResponsePolicy hstart hpath
  have hinside : ∀ {P : PyStr → Prop}, (∃ start ∈ settings.protectedPathPrefixes,
      Inside start path ∧ P start) → Protected settings.toResponsePolicy path :=
    fun ⟨start, hmem, hin, _⟩ => ⟨start, hmem, hin⟩
  constructor
  · exact fun h hprotected => ⟨hfile.1 (h.file.2 hprotected), hcontained.1 (h.contained.2 hprotected)⟩
  · intro h
    have htest : protectedPath settings.toResponsePolicy path = true ↔
        Protected settings.toResponsePolicy path :=
      ⟨fun ht => hinside (hfile.1 ht), fun hprotected => hfile.2 (h hprotected).1⟩
    refine ⟨htest, ?_, ?_, ?_⟩
    · rintro host expected rfl hpid hown
      exact (checkTermination_iff hpid hown).trans htest
    · rintro hprotected host expected rfl f
      exact terminate_refuses (htest.2 hprotected) f
    · exact ⟨fun ht => hinside (hcontained.1 ht), fun hprotected => hcontained.2 (h hprotected).2⟩

/-- Prefixes in normal form with one leading slash protect every path with one. -/
theorem spelled_of_normal
    (hnormal : ∀ start ∈ policy.protectedPathPrefixes, ∃ comps, (∀ c ∈ comps, PlainName c) ∧
      start = slashed 1 comps)
    (hpath : initialSlashes path = 1) : Spelled policy path := by
  rintro ⟨start, hmem, hinside⟩
  obtain ⟨comps, hplain, rfl⟩ := hnormal start hmem
  refine ⟨⟨_, hmem, hinside, ?_⟩, ⟨_, hmem, hinside, initialSlashes_slashed (.inl rfl) hplain⟩⟩
  by_cases hr : stripSlashes (slashed 1 comps) = []
  · exact .inl hr
  · have hsame := (stripSlashes_slashed hplain hr).2
    rw [WellSpelled, hsame]
    exact .inr ⟨normpath_slashed (.inl rfl) hplain,
      (initialSlashes_slashed (.inl rfl) hplain).trans hpath.symm, .inl rfl⟩

end Policy

/-! ## A doubled slash -/

def sampleSettings (start : String) : PolicySettings SampleFloat where
  automaticRuntimeActions := true
  escalateToSigkill := true
  requirePidfd := true
  protectedPids := [0, 1]
  protectedPathPrefixes := [py start]
  policyStatus := py "PROVISIONAL_NOT_CALIBRATED"
  terminateGraceSeconds := .inf
  killGraceSeconds := .inf

/-- The daemon's executable. -/
def elyrad : PyStr := py "/opt/elyra/bin/elyrad"

/-- The policy is accepted and the path is inside its prefix, and neither test finds it, while the
    containment test does. -/
theorem doubled_slash_unprotected :
    (sampleSettings "/opt//elyra").validate = .ok () ∧ elyrad.head? = some 47 ∧
      Protected (sampleSettings "/opt//elyra").toResponsePolicy elyrad ∧
        protectedPath (sampleSettings "/opt//elyra").toResponsePolicy elyrad = false ∧
          Fanotify.contains (normpath (py "/opt//elyra")) (normpath elyrad) = true := by
  refine ⟨by decide +kernel, by decide +kernel, ⟨py "/opt//elyra", List.mem_singleton_self _, ?_⟩,
    by decide +kernel, by decide +kernel⟩
  show Fanotify.components _ <+: Fanotify.components _
  decide +kernel

theorem elyrad_protected :
    Protects SampleFloat (sampleSettings "/opt/elyra").toResponsePolicy elyrad := by
  have hinside : Inside (py "/opt/elyra") elyrad := by
    show Fanotify.components _ <+: Fanotify.components _
    decide +kernel
  have hspelled : WellSpelled (py "/opt/elyra") elyrad := by
    refine .inr ⟨by decide +kernel, by decide +kernel, .inl (by decide +kernel)⟩
  have hone : initialSlashes (py "/opt/elyra") = 1 := by decide +kernel
  refine (protects_iff (by decide +kernel) (by decide +kernel)).2 fun _ => ?_
  exact ⟨⟨_, List.mem_singleton_self _, hinside, hspelled⟩,
    ⟨_, List.mem_singleton_self _, hinside, hone⟩⟩

end Elyra.Response
