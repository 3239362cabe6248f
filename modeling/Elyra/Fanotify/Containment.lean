import Elyra.Fanotify.Policy
import Elyra.Python.Paths
import Elyra.Python.Raising

set_option autoImplicit false

/-! # Containment of paths

`_contains` compares `os.path.commonpath` of two normal forms with the first one. A normal form has one
leading slash or exactly two, and `commonpath` never returns two: so a path with one slash contains what its
components lead to (`contains_normpath`), and a path with two contains nothing, itself included. A policy
whose paths all have one slash goes by components (`byComponents_iff`). -/

namespace Elyra.Fanotify

open Elyra.Python

/-! ## Components -/

theorem components_slashed {n : Nat} {comps : List PyStr} (h : ∀ c ∈ comps, PlainName c) :
    components (slashed n comps) = comps := by
  have hfilter : components (slashed n comps) =
      ((splitSlash (slashed n comps)).filter (· ≠ [])).filter (· ≠ py ".") := by
    rw [components, List.filter_filter]
    exact List.filter_congr fun c _ => by simp [Bool.and_comm]
  rw [hfilter, filter_splitSlash_slashed h]
  exact List.filter_eq_self.2 fun c hc => by simpa using (h c hc).ne_dot

theorem components_normpath {path : PyStr} (h : path.head? = some 47) :
    components (normpath path) = normalComponents path := by
  rw [normpath_eq h, components_slashed (normalComponents_plain path)]

theorem commonStart_initial (ds cs : List PyStr) : commonStart ds cs <+: ds := by
  induction ds generalizing cs with
  | nil => cases cs <;> exact List.nil_prefix
  | cons d ds ih =>
      cases cs with
      | nil => exact List.nil_prefix
      | cons c cs =>
          rw [commonStart]
          split
          · exact List.cons_prefix_cons.2 ⟨rfl, ih cs⟩
          · exact List.nil_prefix

theorem commonStart_eq_left {ds cs : List PyStr} : commonStart ds cs = ds ↔ ds <+: cs := by
  induction ds generalizing cs with
  | nil => exact ⟨fun _ => List.nil_prefix, fun _ => by rw [commonStart]; exact nofun⟩
  | cons d ds ih =>
      cases cs with
      | nil => simp [commonStart]
      | cons c cs =>
          rw [commonStart]
          by_cases hd : d = c
          · rw [if_pos hd, List.cons_prefix_cons, List.cons_inj_right, ih]
            exact ⟨fun h => ⟨hd, h⟩, fun h => h.2⟩
          · rw [if_neg hd, List.cons_prefix_cons]
            exact ⟨fun h => absurd h (by simp), fun h => absurd h.1 hd⟩

theorem isAbs_iff {path : PyStr} : isAbs path = true ↔ path.head? = some 47 := beq_iff_eq

theorem normpath_head {path : PyStr} (h : path.head? = some 47) : (normpath path).head? = some 47 := by
  rw [normpath_eq h]
  exact slashed_head (initialSlashes_cases h)

/-- **`_contains` on normal forms.** -/
theorem contains_normpath {parent child : PyStr} (hparent : parent.head? = some 47)
    (hchild : child.head? = some 47) :
    contains (normpath parent) (normpath child) = true ↔
      initialSlashes parent = 1 ∧ normalComponents parent <+: normalComponents child := by
  rw [contains, commonpath, isAbs_iff.2 (normpath_head hparent), isAbs_iff.2 (normpath_head hchild),
    if_pos rfl, if_pos rfl, beq_iff_eq, Option.some_inj, components_normpath hparent,
    components_normpath hchild, normpath_eq hparent, ← commonStart_eq_left]
  have hplain := normalComponents_plain parent
  have hcommon : ∀ c ∈ commonStart (normalComponents parent) (normalComponents child), PlainName c :=
    fun c hc => hplain c ((commonStart_initial _ _).subset hc)
  show slashed 1 _ = _ ↔ _
  constructor
  · intro heq
    obtain ⟨hone, hsame⟩ := slashed_injective (.inl rfl) (initialSlashes_cases hparent) hcommon hplain heq
    exact ⟨hone.symm, hsame⟩
  · rintro ⟨hone, hsame⟩
    rw [hsame, hone]

/-! ## The lists of a policy -/

/-- `_normalise_many`. -/
def normaliseMany (cwd : Except Exc PyStr) (paths : List PyStr) : Except Exc (List PyStr) := do
  let normal ← paths.mapM (normalise cwd)
  return keys (dictOf (normal.map fun path => (path, ())))

namespace FanotifyPolicy

variable {T : Type}

/-- What `__post_init__` makes of the lists it is given. -/
def normalisePaths (p : FanotifyPolicy T) (cwd : Except Exc PyStr) : Except Exc (FanotifyPolicy T) := do
  let monitoredPaths ← normaliseMany cwd p.monitoredPaths
  let excludedPaths ← normaliseMany cwd p.excludedPaths
  let failClosedPaths ← normaliseMany cwd p.failClosedPaths
  return { p with monitoredPaths, excludedPaths, failClosedPaths }

def paths (p : FanotifyPolicy T) : List PyStr := p.monitoredPaths ++ p.excludedPaths ++ p.failClosedPaths

end FanotifyPolicy

/-- An absolute path has its normal form, whatever the current directory. -/
theorem normalise_of_isAbs {cwd : Except Exc PyStr} {path : PyStr} (h : isAbs path = true) :
    normalise cwd path = .ok (normpath path) := by
  unfold normalise
  rw [if_pos h, normpath_normpath (isAbs_iff.1 h)]

theorem joinPath_isAbs {dir path : PyStr} (h : isAbs dir = true) : isAbs (joinPath dir path) = true := by
  obtain ⟨rest, rfl⟩ : ∃ rest, dir = 47 :: rest := by
    cases dir with
    | nil => cases isAbs_iff.1 h
    | cons c rest => exact ⟨rest, by rw [Option.some.inj (isAbs_iff.1 h)]⟩
  unfold joinPath
  split
  · next hpath => exact hpath
  · split <;> rfl

/-- What `_normalise` returns is the normal form of an absolute path. -/
theorem exists_of_normalise {cwd : Except Exc PyStr} (hcwd : ∀ dir, cwd = .ok dir → isAbs dir = true)
    {path q : PyStr} (h : normalise cwd path = .ok q) :
    ∃ whole, isAbs whole = true ∧ q = normpath whole := by
  by_cases habs : isAbs path = true
  · rw [normalise_of_isAbs habs] at h
    cases h
    exact ⟨path, habs, rfl⟩
  · unfold normalise at h
    rw [if_neg habs] at h
    cases cwd with
    | error exc => cases h
    | ok dir =>
        have hwhole : isAbs (joinPath dir path) = true := joinPath_isAbs (hcwd dir rfl)
        cases h
        exact ⟨joinPath dir path, hwhole, normpath_normpath (isAbs_iff.1 hwhole)⟩

theorem exists_of_normaliseMany {cwd : Except Exc PyStr} (hcwd : ∀ dir, cwd = .ok dir → isAbs dir = true)
    {paths normal : List PyStr} (h : normaliseMany cwd paths = .ok normal) {q : PyStr} (hq : q ∈ normal) :
    ∃ whole, isAbs whole = true ∧ q = normpath whole := by
  obtain ⟨all, hall, h⟩ := bind_ok.1 h
  cases h
  obtain ⟨⟨q', u⟩, hmem, rfl⟩ := List.mem_map.1 hq
  obtain ⟨q'', hq'', heq⟩ := List.mem_map.1 ((dictOf_spec _).2 _ hmem)
  cases heq
  obtain ⟨path, -, hpath⟩ := mem_of_mapM hall hq''
  exact exists_of_normalise hcwd hpath

/-! ## Policies that go by components -/

/-- The root and the components of a path. -/
def fromRoot (path : PyStr) : List PyStr := [47] :: (splitSlash path).filter (· ≠ [])

/-- The path is an ancestor of the other one, or the same. -/
def Ancestor (path child : PyStr) : Prop := fromRoot path <+: fromRoot child

theorem ancestor_normpath {parent child : PyStr} (hparent : parent.head? = some 47)
    (hchild : child.head? = some 47) :
    Ancestor (normpath parent) (normpath child) ↔ normalComponents parent <+: normalComponents child := by
  rw [Ancestor, fromRoot, fromRoot, List.cons_prefix_cons, and_iff_right rfl, normpath_eq hparent,
    normpath_eq hchild, filter_splitSlash_slashed (normalComponents_plain parent),
    filter_splitSlash_slashed (normalComponents_plain child)]

section Policies

variable {T : Type}

/-- What the policy says of an absolute path goes by the components of its normal form. -/
structure ByComponents (p : FanotifyPolicy T) (cwd : Except Exc PyStr) (path : PyStr) : Prop where
  contained : ∀ q ∈ p.paths, ∀ child, normalise cwd path = .ok child →
    (contains q child = true ↔ Ancestor q child)
  monitored : ∀ child, normalise cwd path = .ok child →
    (p.shouldMonitor cwd (some path) = .ok true ↔
      (∃ q ∈ p.monitoredPaths, Ancestor q child) ∧ ¬ ∃ q ∈ p.excludedPaths, Ancestor q child)
  exclusive : ¬ (p.isExcludedPath cwd (some path) = .ok true ∧ p.shouldMonitor cwd (some path) = .ok true)
  spelling : ∀ other, isAbs other = true → normalise cwd other = normalise cwd path →
    p.shouldMonitor cwd (some other) = p.shouldMonitor cwd (some path) ∧
    p.isExcludedPath cwd (some other) = p.isExcludedPath cwd (some path) ∧
    p.getFailPolicy cwd (some other) = p.getFailPolicy cwd (some path)

variable {p raw : FanotifyPolicy T} {cwd : Except Exc PyStr} {path : PyStr}

theorem candidate_of_isAbs (h : isAbs path = true) :
    FanotifyPolicy.candidate cwd (some path) = .ok (some (normpath path)) := by
  have hne : path ≠ [] := by
    rintro rfl
    cases h
  unfold FanotifyPolicy.candidate
  split
  · next heq => cases heq
  · next heq => exact absurd (Option.some.inj heq) hne
  · next whole _ heq =>
      cases heq
      rw [normalise_of_isAbs h]
      rfl

theorem shouldMonitor_of_isAbs (h : isAbs path = true) : p.shouldMonitor cwd (some path) =
    .ok (!(p.excludedPaths.any (contains · (normpath path))) &&
      p.monitoredPaths.any (contains · (normpath path))) := by
  rw [FanotifyPolicy.shouldMonitor, candidate_of_isAbs h]
  simp only [Except.map]
  cases p.excludedPaths.any (contains · (normpath path)) <;> rfl

theorem isExcludedPath_of_isAbs (h : isAbs path = true) : p.isExcludedPath cwd (some path) =
    .ok (p.excludedPaths.any (contains · (normpath path))) := by
  rw [FanotifyPolicy.isExcludedPath, candidate_of_isAbs h]
  rfl

/-- No path is both excluded and monitored. -/
theorem not_excluded_and_monitored (h : isAbs path = true) :
    ¬ (p.isExcludedPath cwd (some path) = .ok true ∧ p.shouldMonitor cwd (some path) = .ok true) := by
  rw [isExcludedPath_of_isAbs h, shouldMonitor_of_isAbs h]
  rintro ⟨hexcluded, hmonitored⟩
  rw [Except.ok.inj hexcluded] at hmonitored
  cases hmonitored

/-- The queries depend on the normal form. -/
theorem queries_congr {other : PyStr} (h : isAbs path = true) (hother : isAbs other = true)
    (hsame : normalise cwd other = normalise cwd path) :
    p.shouldMonitor cwd (some other) = p.shouldMonitor cwd (some path) ∧
    p.isExcludedPath cwd (some other) = p.isExcludedPath cwd (some path) ∧
    p.getFailPolicy cwd (some other) = p.getFailPolicy cwd (some path) := by
  have hcandidate : FanotifyPolicy.candidate cwd (some other) = FanotifyPolicy.candidate cwd (some path) := by
    rw [normalise_of_isAbs h, normalise_of_isAbs hother] at hsame
    rw [candidate_of_isAbs h, candidate_of_isAbs hother, Except.ok.inj hsame]
  refine ⟨?_, ?_, ?_⟩
  · rw [FanotifyPolicy.shouldMonitor, FanotifyPolicy.shouldMonitor, hcandidate]
  · rw [FanotifyPolicy.isExcludedPath, FanotifyPolicy.isExcludedPath, hcandidate]
  · rw [FanotifyPolicy.getFailPolicy, FanotifyPolicy.getFailPolicy, hcandidate]

/-- The paths of a policy are normal forms of absolute paths. -/
theorem paths_normal (hcwd : ∀ dir, cwd = .ok dir → isAbs dir = true) (hp : raw.normalisePaths cwd = .ok p)
    {q : PyStr} (hq : q ∈ p.paths) : ∃ whole, isAbs whole = true ∧ q = normpath whole := by
  obtain ⟨monitored, hmonitored, hp⟩ := bind_ok.1 hp
  obtain ⟨excluded, hexcluded, hp⟩ := bind_ok.1 hp
  obtain ⟨failClosed, hfailClosed, hp⟩ := bind_ok.1 hp
  cases hp
  simp only [FanotifyPolicy.paths, List.mem_append] at hq
  rcases hq with (hq | hq) | hq
  · exact exists_of_normaliseMany hcwd hmonitored hq
  · exact exists_of_normaliseMany hcwd hexcluded hq
  · exact exists_of_normaliseMany hcwd hfailClosed hq

theorem initialSlashes_normpath (h : path.head? = some 47) :
    initialSlashes (normpath path) = initialSlashes path := by
  rw [normpath_eq h, initialSlashes_slashed (initialSlashes_cases h) (normalComponents_plain path)]

/-- A path of the policy contains what it is an ancestor of, if it has one leading slash. -/
theorem contains_listed (hcwd : ∀ dir, cwd = .ok dir → isAbs dir = true) (hp : raw.normalisePaths cwd = .ok p)
    (hpath : isAbs path = true) {q : PyStr} (hq : q ∈ p.paths) :
    contains q (normpath path) = true ↔ initialSlashes q = 1 ∧ Ancestor q (normpath path) := by
  obtain ⟨whole, hwhole, rfl⟩ := paths_normal hcwd hp hq
  rw [isAbs_iff] at hwhole hpath
  rw [contains_normpath hwhole hpath, ancestor_normpath hwhole hpath, initialSlashes_normpath hwhole]

/-- **The policy goes by components** exactly where no ancestor of the path in its lists has two leading
    slashes. -/
theorem byComponents_iff (raw p : FanotifyPolicy T) (cwd : Except Exc PyStr) (path : PyStr)
    (hcwd : ∀ dir, cwd = .ok dir → isAbs dir = true) (hp : raw.normalisePaths cwd = .ok p)
    (hpath : isAbs path = true) :
    ByComponents p cwd path ↔ ∀ q ∈ p.paths, Ancestor q (normpath path) → initialSlashes q = 1 := by
  have hlisted (q : PyStr) (hq : q ∈ p.paths) := contains_listed hcwd hp hpath hq
  constructor
  · intro h q hq hancestor
    have hcontains := (h.contained q hq _ (normalise_of_isAbs hpath)).2 hancestor
    exact ((hlisted q hq).1 hcontains).1
  · intro h
    have hcontained (q : PyStr) (hq : q ∈ p.paths) : contains q (normpath path) = true ↔ Ancestor q (normpath path) :=
      (hlisted q hq).trans ⟨fun hboth => hboth.2, fun hancestor => ⟨h q hq hancestor, hancestor⟩⟩
    have hany {qs : List PyStr} (hqs : ∀ q ∈ qs, q ∈ p.paths) :
        qs.any (contains · (normpath path)) = true ↔ ∃ q ∈ qs, Ancestor q (normpath path) := by
      rw [List.any_eq_true]
      exact exists_congr fun q => and_congr_right fun hq => hcontained q (hqs q hq)
    refine ⟨?_, ?_, not_excluded_and_monitored hpath, fun other hother => queries_congr hpath hother⟩
    · intro q hq child hchild
      rw [normalise_of_isAbs hpath] at hchild
      cases hchild
      exact hcontained q hq
    · intro child hchild
      rw [normalise_of_isAbs hpath] at hchild
      cases hchild
      rw [shouldMonitor_of_isAbs hpath, Except.ok.injEq, Bool.and_eq_true, Bool.not_eq_true',
        ← hany fun q hq => List.mem_append_left _ (List.mem_append_left _ hq),
        ← hany fun q hq => List.mem_append_left _ (List.mem_append_right _ hq), Bool.not_eq_true, and_comm]

end Policies

/-! ## A path with two leading slashes -/

def rootPolicy (excluded : List PyStr) : FanotifyPolicy ℤ where
  defaultFailPolicy := .failOpen
  monitoredPaths := [py "/"]
  excludedPaths := excluded
  failClosedPaths := []
  maxResponseSeconds := 3
  maxPreexecFileBytes := 1000
  excludeDaemonDescendants := true

/-- The directory is excluded under another spelling, and monitored. -/
theorem doubled_exclusion_ignored :
    (rootPolicy [py "//opt/elyra"]).normalisePaths (.ok (py "/")) = .ok (rootPolicy [py "//opt/elyra"]) ∧
    (rootPolicy [py "//opt/elyra"]).shouldMonitor (.ok (py "/")) (some (py "//opt/elyra/bin")) = .ok true ∧
    ¬ ByComponents (rootPolicy [py "//opt/elyra"]) (.ok (py "/")) (py "//opt/elyra/bin") := by
  refine ⟨rfl, by decide +kernel, fun h => ?_⟩
  have hancestor : Ancestor (py "//opt/elyra") (py "//opt/elyra/bin") := by
    unfold Ancestor
    decide
  have hcontains := (h.contained (py "//opt/elyra") (by simp [FanotifyPolicy.paths, rootPolicy])
    (py "//opt/elyra/bin") (by decide +kernel)).2 hancestor
  exact absurd hcontains (by decide +kernel)

/-- Odd spellings of an excluded path, with one leading slash. -/
theorem odd_spelling_excluded :
    ByComponents (rootPolicy [py "/opt/elyra"]) (.ok (py "/opt")) (py "/opt/../opt/./elyra//bin") := by
  have hnormal : (rootPolicy [py "/opt/x/..//./elyra/", py "elyra"]).normalisePaths (.ok (py "/opt")) =
      .ok (rootPolicy [py "/opt/elyra"]) := rfl
  refine (byComponents_iff _ _ _ _ ?_ hnormal (by decide)).2 ?_
  · rintro dir hdir
    cases hdir
    decide
  · rintro q hq -
    simp only [FanotifyPolicy.paths, rootPolicy, List.append_nil, List.cons_append, List.nil_append,
      List.mem_cons, List.not_mem_nil, or_false] at hq
    rcases hq with rfl | rfl <;> decide

end Elyra.Fanotify
