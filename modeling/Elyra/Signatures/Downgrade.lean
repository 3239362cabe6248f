import Elyra.Signatures.Store

set_option autoImplicit false

/-! # Downgrade protection

Sequences of installs on one store. An install is let through when its three numbers are not smaller
than those of the bundle that is installed. So the installed version never decreases as long as no
install goes from a version to a lower pre-release of it
(`installed_version_never_decreases`). -/

namespace Elyra.Signatures

open Elyra.Python Elyra.Posix Elyra.Posix.Program

variable {F : Type} [PyFloat F] {str : Exc → PyStr} {f f' : Shelf} {bundle : Mapping F}

/-- The bundle that is installed. -/
def installedBundle (F : Type) [PyFloat F] (str : Exc → PyStr) (f : Shelf) : Option (Mapping F) :=
  match (f .installed).map (parseBundle str none) with
  | some (.ok bundle) => some bundle
  | _ => none

/-- The precedence of the version that is installed, `⊥` where there is no bundle. -/
def installedPrecedence (F : Type) [PyFloat F] (str : Exc → PyStr) (f : Shelf) :
    WithBot Precedence :=
  match installedBundle F str f with
  | none => ⊥
  | some bundle => precedence (versionOf bundle)

theorem installedBundle_some {old : Mapping F} (h : installedBundle F str f = some old) :
    ∃ data, f .installed = some data ∧ parseBundle str none data = .ok old := by
  unfold installedBundle at h
  cases hi : f .installed with
  | none => exact absurd h (by simp [hi])
  | some data =>
      simp only [hi, Option.map_some] at h
      split at h
      · next old' hparse =>
        rw [Option.some.injEq] at h hparse
        exact ⟨data, rfl, h ▸ hparse⟩
      · exact absurd h (by simp)

theorem installedBundle_eq {data : Bytes} {old : Mapping F} (hi : f .installed = some data)
    (hparse : parseBundle str none data = .ok old) : installedBundle F str f = some old := by
  simp only [installedBundle, hi, Option.map_some, hparse]

/-! ## One install -/

omit [PyFloat F] in
theorem versionOf_sorted (hwf : (Json.obj bundle).WF) : versionOf (sorted bundle) = versionOf bundle := by
  unfold versionOf
  rw [sorted, lookup_sortKeys hwf.1]
  rcases lookup (py "bundle_version") bundle with - | v
  · rfl
  · cases v <;> rfl

theorem numbersOf_version (h : validateBundle none bundle = .ok ()) :
    ∃ n, numbersOf (versionOf bundle) = some n := by
  obtain ⟨s, n, hs, -, hn⟩ := version_of_validate h
  exact ⟨n, by rw [versionOf, hs]; exact hn⟩

variable {allowRollback : Bool}

/-- After an install, the bundle is there. -/
theorem Installed.parsed (h : Installed str bundle allowRollback f f') (hwf : (Json.obj bundle).WF) :
    installedBundle F str f' = some (sorted bundle) := by
  obtain ⟨data, hencode, hdata⟩ := h.encoded
  exact installedBundle_eq hdata (parseBundle_encode hwf h.valid hencode)

omit [PyFloat F] in
/-- The comparison that lets an install through. -/
theorem not_lt_of_checkDowngrade {old : Mapping F} {m n : Numbers}
    (h : checkDowngrade bundle (some old) false = .ok ()) (hne : old ≠ [])
    (hm : numbersOf (versionOf old) = some m) (hn : numbersOf (versionOf bundle) = some n) :
    ¬ n.triple < m.triple := by
  cases old with
  | nil => exact absurd rfl hne
  | cons kv old =>
      obtain ⟨newKey, hnew, h⟩ := except_bind_ok_iff.1 h
      obtain ⟨oldKey, hold, h⟩ := except_bind_ok_iff.1 h
      obtain rfl := versionKey_ok hn hnew
      obtain rfl := versionKey_ok hm hold
      simpa using require_ok_iff.1 h

/-- **An install without `allow_rollback` decreases the version exactly when it demotes it.** -/
theorem Installed.decreases_iff (h : Installed str bundle false f f') (hwf : (Json.obj bundle).WF) :
    installedPrecedence F str f' < installedPrecedence F str f ↔
      ∃ old, installedBundle F str f = some old ∧ Demotes (versionOf old) (versionOf bundle) := by
  have hnew : installedPrecedence F str f' = precedence (versionOf bundle) := by
    simp only [installedPrecedence, h.parsed hwf, versionOf_sorted hwf]
  rw [hnew]
  cases hold : installedBundle F str f with
  | none =>
      simp only [installedPrecedence, hold, not_lt_bot, false_iff]
      rintro ⟨old, hsome, -⟩
      exact absurd hsome (by simp)
  | some old =>
      obtain ⟨data, hdata, hparse⟩ := installedBundle_some hold
      obtain ⟨old', hparse', hcheck⟩ := (h.replaced data hdata).parsed
      obtain rfl : old' = old := Except.ok.inj (hparse'.symm.trans hparse)
      have hvalid := (validate_of_parse hparse).1
      obtain ⟨m, hm⟩ := numbersOf_version hvalid
      obtain ⟨n, hn⟩ := numbersOf_version h.valid
      have hkey := not_lt_of_checkDowngrade hcheck (ne_nil_of_validate hvalid) hm hn
      simp only [installedPrecedence, hold, Option.some.injEq, exists_eq_left']
      exact precedence_lt_iff_demotes hm hn hkey

/-! ## Sequences of installs -/

/-- A call of `install` without `allow_rollback`, in any of its runs, whatever fails. -/
def Installs (str : Exc → PyStr) (bundle : Mapping F) (f f' : Shelf) : Prop :=
  (Json.obj bundle).WF ∧
    ∃ r, Ends (machine fun _ => True) .never (install str bundle false) f r f'

/-- An install that does not go to a lower pre-release of the version that is installed. -/
def SteadyInstall (F : Type) [PyFloat F] (str : Exc → PyStr) (f f' : Shelf) : Prop :=
  ∃ bundle : Mapping F, Installs str bundle f f' ∧
    ∀ old, installedBundle F str f = some old → ¬ Demotes (versionOf old) (versionOf bundle)

theorem SteadyInstall.le (h : SteadyInstall F str f f') :
    installedPrecedence F str f ≤ installedPrecedence F str f' := by
  obtain ⟨bundle, ⟨hwf, r, hrun⟩, hsteady⟩ := h
  have hpost := after_ends after_install hrun
  cases r with
  | ok b =>
      obtain ⟨-, hinstalled⟩ := hpost
      refine not_lt.1 fun hlt => ?_
      obtain ⟨old, hold, hdemotes⟩ := (hinstalled.decreases_iff hwf).1 hlt
      exact hsteady old hold hdemotes
  | error e =>
      have hsame : installedBundle F str f' = installedBundle F str f := by
        unfold installedBundle
        rw [hpost.installed]
      simp only [installedPrecedence, hsame, le_refl]

/-- **The installed version never decreases** over installs that do not demote it. -/
theorem installed_version_never_decreases (h : Relation.ReflTransGen (SteadyInstall F str) f f') :
    installedPrecedence F str f ≤ installedPrecedence F str f' := by
  induction h with
  | refl => exact le_rfl
  | tail _ hstep ih => exact ih.trans hstep.le

/-! ## A release and its candidate -/

def sampleBundle (version : PyStr) : Mapping SampleFloat :=
  (createBundle (py "elyra-local-core") version [(py "source", .str (py "elyra-maintained"))]
    [[(py "id", .str (py "ELF_SUSPICIOUS_HASH")), (py "match_type", .str (py "literal")),
      (py "value", .str (py "a")), (py "description", .str (py "A rule."))]]).toOption.getD []

/-- The files after an install, where every call works. -/
def sampleInstall (version : PyStr) (f : Shelf) : Shelf :=
  (run (install (fun _ => []) (sampleBundle version) false) f).2

theorem sampleBundle_wf (version : PyStr) : (Json.obj (sampleBundle version)).WF := by
  unfold sampleBundle
  cases h : createBundle (py "elyra-local-core") version
      [(py "source", (.str (py "elyra-maintained") : Json SampleFloat))]
      [[(py "id", .str (py "ELF_SUSPICIOUS_HASH")), (py "match_type", .str (py "literal")),
        (py "value", .str (py "a")), (py "description", .str (py "A rule."))]] with
  | error e => exact ⟨List.nodup_nil, trivial⟩
  | ok bundle =>
      refine createBundle_wf h ⟨by decide, trivial, trivial⟩ ?_
      intro rule hrule
      obtain rfl := List.mem_singleton.1 hrule
      exact ⟨by decide, trivial, trivial, trivial, trivial, trivial⟩

theorem sampleInstall_installs (version : PyStr) (f : Shelf) :
    Installs (fun _ => []) (sampleBundle version) f (sampleInstall version f) :=
  ⟨sampleBundle_wf version, _, run_ends ..⟩

/-- Two releases one after the other. -/
theorem version_increases :
    installedPrecedence SampleFloat (fun _ => []) (sampleInstall (py "1.0.0") fun _ => none) ≤
      installedPrecedence SampleFloat (fun _ => [])
        (sampleInstall (py "1.1.0") (sampleInstall (py "1.0.0") fun _ => none)) := by
  refine installed_version_never_decreases (.single ⟨_, sampleInstall_installs .., ?_⟩)
  intro old hold
  have hversion : (installedBundle SampleFloat (fun _ => [])
      (sampleInstall (py "1.0.0") fun _ => none)).map versionOf = some (py "1.0.0") := by
    decide +kernel
  have hnew : versionOf (sampleBundle (py "1.1.0")) = py "1.1.0" := by decide +kernel
  rw [hold, Option.map_some, Option.some.injEq] at hversion
  rw [hversion, hnew]
  rintro ⟨m, n, hm, hn, heq, -⟩
  cases hm
  cases hn
  exact absurd heq (by decide)

/-- The release candidate is installed over the release. -/
theorem candidate_replaces_release :
    Installs (fun _ => []) (sampleBundle (py "1.0.0-rc.1")) (sampleInstall (py "1.0.0") fun _ => none)
        (sampleInstall (py "1.0.0-rc.1") (sampleInstall (py "1.0.0") fun _ => none)) ∧
      installedPrecedence SampleFloat (fun _ => [])
          (sampleInstall (py "1.0.0-rc.1") (sampleInstall (py "1.0.0") fun _ => none)) <
        installedPrecedence SampleFloat (fun _ => []) (sampleInstall (py "1.0.0") fun _ => none) :=
  ⟨sampleInstall_installs .., by decide +kernel⟩

end Elyra.Signatures
