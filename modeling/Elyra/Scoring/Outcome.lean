import Elyra.Python.Raising
import Elyra.Scoring.Engine

set_option autoImplicit false
set_option linter.unusedSectionVars false

/-! # What scoring computes

A policy that `validate` accepts is a weighing of the rules. Where `score` returns, it has scored the set
of the rules that the scan triggers. -/

namespace Elyra.Scoring

open Elyra.Python

variable {F : Type} [OrderedFloat F]

/-! ## Accepted policies -/

theorem require_ok {p : Prop} [Decidable p] {text : PyStr} {u : Unit} :
    require p text = .ok u ↔ p := by
  by_cases hp : p <;> simp [require, hp]

theorem getItem_ok {α : Type} {d : Dict PyStr α} {key : PyStr} {v : α} :
    getItem d key = .ok v ↔ d.get? key = some v := by
  rw [getItem]
  cases d.get? key <;> simp

namespace ScoringPolicy

variable (policy : ScoringPolicy F)

/-- The cap of a category. -/
def cap (c : Category) : Int := (policy.categoryCaps.get? c.text).getD 0

/-- The minimum with that name. -/
def minimum (name : String) : Int := (policy.decisionThresholds.get? (py name)).getD 0

/-- The policy as a weighing of the rules. -/
def weighing : Weighing Rule Category where
  category r :=
    ((policy.rules.get? r.text).bind fun spec => Category.ofText? spec.category).getD .entropy
  weight r := (policy.rules.get? r.text).elim 0 RuleSpec.weight
  cap := policy.cap

/-- The decision for a score and a score of the static category. -/
def verdict (score static : Int) : Decision :=
  if policy.minimum "deny_min" ≤ score then
    if policy.minimum "deny_min_static_score" ≤ static then .deny else .warn
  else if policy.minimum "warn_min" ≤ score then .warn
  else if policy.minimum "allow_monitor_min" ≤ score then .allowMonitor
  else .allow

/-- What `validate` checks. -/
structure Accepted : Prop where
  scoreMinimum : policy.scoreMinimum = 0
  scoreMaximum : policy.scoreMaximum = 100
  categoryCap : ∀ c, getItem policy.categoryCaps c.text = .ok (policy.cap c)
  cap_nonneg : ∀ c, 0 ≤ policy.cap c
  monitorMin : policy.decisionThreshold "allow_monitor_min" = .ok (policy.minimum "allow_monitor_min")
  warnMin : policy.decisionThreshold "warn_min" = .ok (policy.minimum "warn_min")
  denyMin : policy.decisionThreshold "deny_min" = .ok (policy.minimum "deny_min")
  gate : policy.decisionThreshold "deny_min_static_score" =
    .ok (policy.minimum "deny_min_static_score")
  increasing : 0 < policy.minimum "allow_monitor_min" ∧
    policy.minimum "allow_monitor_min" < policy.minimum "warn_min" ∧
      policy.minimum "warn_min" < policy.minimum "deny_min" ∧ policy.minimum "deny_min" ≤ 100
  gate_le : policy.minimum "deny_min_static_score" ≤ policy.cap .static
  rule : ∀ r spec, policy.rules.get? r = some spec →
    spec.rule = r ∧ (∃ c, Category.ofText? spec.category = some c) ∧ 0 ≤ spec.weight

end ScoringPolicy

theorem getItem_keys {d : Dict PyStr Int} {names : List PyStr} (h : HasKeys d names) {k : PyStr}
    (hk : k ∈ names) : getItem d k = .ok ((d.get? k).getD 0) := by
  have hsome : d.get? k ≠ none := fun hnone => lookup_eq_none_iff.1 hnone (h.2 k hk)
  cases hget : d.get? k with
  | none => exact absurd hget hsome
  | some v => exact getItem_ok.2 hget

theorem ofText?_of_mem {text : PyStr} (h : text ∈ allowedCategories.map Category.text) :
    ∃ c, Category.ofText? text = some c := by
  obtain ⟨c, hc, htext⟩ := List.mem_map.1 h
  refine Option.isSome_iff_exists.1 (List.find?_isSome.2 ⟨c, hc, ?_⟩)
  exact decide_eq_true htext

theorem checkRule_ok {maximum : Int} {r : PyStr} {spec : RuleSpec F}
    (h : checkRule maximum r spec = .ok ()) :
    spec.rule = r ∧ (∃ c, Category.ofText? spec.category = some c) ∧ 0 ≤ spec.weight := by
  obtain ⟨_, hrule, h⟩ := bind_ok.1 h
  obtain ⟨_, hcategory, h⟩ := bind_ok.1 h
  obtain ⟨_, hweight, _⟩ := bind_ok.1 h
  have hweight := require_ok.1 hweight
  exact ⟨require_ok.1 hrule, ofText?_of_mem (require_ok.1 hcategory), by omega⟩

namespace ScoringPolicy

variable {policy : ScoringPolicy F}

theorem cap_eq {c : Category} {cap : Int} (h : getItem policy.categoryCaps c.text = .ok cap) :
    policy.cap c = cap := by
  rw [ScoringPolicy.cap, getItem_ok.1 h]
  rfl

theorem minimum_eq {name : String} {m : Int} (h : policy.decisionThreshold name = .ok m) :
    policy.minimum name = m := by
  rw [minimum, getItem_ok.1 h]
  rfl

theorem accepted (h : policy.validate = .ok ()) : policy.Accepted := by
  obtain ⟨_, -, h⟩ := bind_ok.1 h
  obtain ⟨_, hrange, h⟩ := bind_ok.1 h
  obtain ⟨_, hcapKeys, h⟩ := bind_ok.1 h
  obtain ⟨_, hcaps, h⟩ := bind_ok.1 h
  obtain ⟨_, -, h⟩ := bind_ok.1 h
  obtain ⟨monitorMin, hmonitor, h⟩ := bind_ok.1 h
  obtain ⟨warnMin, hwarn, h⟩ := bind_ok.1 h
  obtain ⟨denyMin, hdeny, h⟩ := bind_ok.1 h
  obtain ⟨gate, hgate, h⟩ := bind_ok.1 h
  obtain ⟨_, hincreasing, h⟩ := bind_ok.1 h
  obtain ⟨staticCap, hstatic, h⟩ := bind_ok.1 h
  obtain ⟨_, hgateCap, hrules⟩ := bind_ok.1 h
  have hrange := require_ok.1 hrange
  have hmaximum : policy.scoreMaximum = 100 := by tauto
  have hcap : ∀ c : Category, getItem policy.categoryCaps c.text = .ok (policy.cap c) := fun c =>
    getItem_keys (require_ok.1 hcapKeys) (List.mem_map.2 ⟨c, by cases c <;> decide, rfl⟩)
  have hincreasing := require_ok.1 hincreasing
  rw [hmaximum, ← minimum_eq hmonitor, ← minimum_eq hwarn, ← minimum_eq hdeny] at hincreasing
  refine ⟨by tauto, hmaximum, hcap, fun c => ?_, ?_, ?_, ?_, ?_, hincreasing, ?_, fun r spec hget => ?_⟩
  · by_contra hneg
    have hmem : policy.cap c ∈ policy.categoryCaps.values :=
      List.mem_map.2 ⟨(c.text, policy.cap c), Dict.mem_items.2 (getItem_ok.1 (hcap c)), rfl⟩
    exact require_ok.1 hcaps ⟨policy.cap c, hmem, .inl (not_le.1 hneg)⟩
  · rw [minimum_eq hmonitor, hmonitor]
  · rw [minimum_eq hwarn, hwarn]
  · rw [minimum_eq hdeny, hdeny]
  · rw [minimum_eq hgate, hgate]
  · rw [minimum_eq hgate, cap_eq hstatic]
    exact (require_ok.1 hgateCap).2
  · exact checkRule_ok (forM_ok hrules (r, spec) (Dict.mem_items.2 hget))

theorem Accepted.decision_ok (h : policy.Accepted) {score static : Int} {d : Decision} {notes : List PyStr}
    (hd : policy.decision score static = .ok (d, notes)) : d = policy.verdict score static := by
  obtain ⟨denyMin, hdeny, hd⟩ := bind_ok.1 hd
  obtain rfl := Except.ok.inj (h.denyMin.symm.trans hdeny)
  by_cases hscore : policy.minimum "deny_min" ≤ score
  · rw [if_pos hscore] at hd
    obtain ⟨gate, hgate, hd⟩ := bind_ok.1 hd
    obtain rfl := Except.ok.inj (h.gate.symm.trans hgate)
    by_cases hstatic : policy.minimum "deny_min_static_score" ≤ static
    · rw [if_pos hstatic] at hd
      rw [verdict, if_pos hscore, if_pos hstatic]
      exact (congrArg Prod.fst (Except.ok.inj hd)).symm
    · rw [if_neg hstatic] at hd
      rw [verdict, if_pos hscore, if_neg hstatic]
      exact (congrArg Prod.fst (Except.ok.inj hd)).symm
  · rw [if_neg hscore] at hd
    obtain ⟨warnMin, hwarn, hd⟩ := bind_ok.1 hd
    obtain rfl := Except.ok.inj (h.warnMin.symm.trans hwarn)
    rw [verdict, if_neg hscore]
    by_cases hwarning : policy.minimum "warn_min" ≤ score
    · rw [if_pos hwarning] at hd ⊢
      exact (congrArg Prod.fst (Except.ok.inj hd)).symm
    · rw [if_neg hwarning] at hd ⊢
      obtain ⟨monitorMin, hmonitor, hd⟩ := bind_ok.1 hd
      obtain rfl := Except.ok.inj (h.monitorMin.symm.trans hmonitor)
      by_cases hmonitoring : policy.minimum "allow_monitor_min" ≤ score
      · rw [if_pos hmonitoring] at hd ⊢
        exact (congrArg Prod.fst (Except.ok.inj hd)).symm
      · rw [if_neg hmonitoring] at hd ⊢
        exact (congrArg Prod.fst (Except.ok.inj hd)).symm

/-! ## Triggered rules -/

/-- A value of the entropy summary reaches the threshold of the rule. -/
def reaches (policy : ScoringPolicy F) (scan : StaticScanResult F) (rule : Rule) (key : String) :
    Bool :=
  match scan.entropy key, policy.threshold rule with
  | .ok value, .ok least => OrderedFloat.le least value
  | _, _ => false

/-- The rules of `_collect_entropy` that the scan triggers. -/
def entropyRules (policy : ScoringPolicy F) (scan : StaticScanResult F) : List Rule :=
  (if policy.reaches scan .highWholeFileEntropy "whole_file_entropy" then [.highWholeFileEntropy]
    else []) ++
  (if policy.reaches scan .highEntropyBlockRatio "high_entropy_block_ratio" then
    [.highEntropyBlockRatio] else [])

end ScoringPolicy

/-- The rules of the checks that fire. -/
def fired (findings : List (Finding F)) : List Rule :=
  (findings.filter Finding.fires).map Finding.rule

/-- The rules that the scan triggers. -/
def ScoringPolicy.triggered (policy : ScoringPolicy F) (scan : StaticScanResult F) : List Rule :=
  policy.entropyRules scan ++ fired (staticFindings scan) ++ fired (contextFindings scan)

namespace ScoringPolicy

variable {policy : ScoringPolicy F}

/-- The indicator is that of the rule. -/
def Indicates (policy : ScoringPolicy F) (r : Rule) (i : ScoreIndicator F) : Prop :=
  ∃ spec, policy.rules.get? r.text = some spec ∧ i.rule = spec.rule ∧ i.category = spec.category ∧
    i.weight = spec.weight

theorem indicator_ok {r : Rule} {evidence : Json F} {i : ScoreIndicator F}
    (h : policy.indicator r evidence = .ok i) : policy.Indicates r i := by
  rw [indicator] at h
  cases hget : policy.rules.get? r.text with
  | none =>
      rw [hget] at h
      cases h
  | some spec =>
      rw [hget] at h
      obtain rfl := Except.ok.inj h
      exact ⟨spec, hget, rfl, rfl, rfl⟩

theorem collect_ok {findings : List (Finding F)} {indicators : List (ScoreIndicator F)}
    (h : policy.collect findings = .ok indicators) :
    List.Forall₂ policy.Indicates (fired findings) indicators :=
  List.forall₂_map_left_iff.2 ((mapM_ok h).imp fun _ _ => indicator_ok)

theorem fired_single (fires : Bool) (rule : Rule) (evidence : Json F) :
    fired [⟨fires, rule, evidence⟩] = if fires then [rule] else [] := by
  cases fires <;> rfl

theorem reaches_eq {scan : StaticScanResult F} {rule : Rule} {key : String} {value least : F}
    (hvalue : scan.entropy key = .ok value) (hleast : policy.threshold rule = .ok least) :
    policy.reaches scan rule key = OrderedFloat.le least value := by
  rw [reaches, hvalue, hleast]

theorem collectEntropy_ok {scan : StaticScanResult F} {indicators : List (ScoreIndicator F)}
    (h : policy.collectEntropy scan = .ok indicators) :
    List.Forall₂ policy.Indicates (policy.entropyRules scan) indicators := by
  obtain ⟨whole, hwhole, h⟩ := bind_ok.1 h
  obtain ⟨ratio, hratio, h⟩ := bind_ok.1 h
  obtain ⟨wholeMin, hwholeMin, h⟩ := bind_ok.1 h
  obtain ⟨first, hfirst, h⟩ := bind_ok.1 h
  obtain ⟨ratioMin, hratioMin, h⟩ := bind_ok.1 h
  obtain ⟨second, hsecond, h⟩ := bind_ok.1 h
  obtain rfl := Except.ok.inj h
  rw [entropyRules, reaches_eq (mapError_ok.1 hwhole) hwholeMin,
    reaches_eq (mapError_ok.1 hratio) hratioMin]
  have hfirst := collect_ok hfirst
  have hsecond := collect_ok hsecond
  rw [fired_single] at hfirst hsecond
  exact List.rel_append hfirst hsecond

end ScoringPolicy

/-! ## Scores -/

/-- An indicator, filed under the category of the rule with its weight. -/
def Files (policy : ScoringPolicy F) (r : Rule) (i : Category × ScoreIndicator F) : Prop :=
  i.1 = policy.weighing.category r ∧ i.2.weight = policy.weighing.weight r ∧ i.2.rule = r.text

theorem ScoringPolicy.Indicates.files {policy : ScoringPolicy F} (hpolicy : policy.Accepted)
    {r : Rule} {i : ScoreIndicator F} {ci : Category × ScoreIndicator F}
    (h : policy.Indicates r i) (hfiled : i.filed = .ok ci) : Files policy r ci := by
  obtain ⟨spec, hget, hrule, hcategory, hweight⟩ := h
  obtain ⟨hname, ⟨c, hc⟩, -⟩ := hpolicy.rule r.text spec hget
  rw [ScoreIndicator.filed, hcategory, hc] at hfiled
  obtain rfl := Except.ok.inj hfiled
  refine ⟨?_, ?_, hrule.trans hname⟩
  · show c = ((policy.rules.get? r.text).bind fun spec => Category.ofText? spec.category).getD .entropy
    rw [hget, Option.bind_some, hc]
    rfl
  · show i.weight = (policy.rules.get? r.text).elim 0 RuleSpec.weight
    rw [hget]
    exact hweight

theorem rawScores_eq (indicators : List (Category × ScoreIndicator F)) (c : Category) :
    rawScores indicators c =
      (indicators.map fun i => if i.1 = c then i.2.weight else 0).sum := by
  have hfold : ∀ raw : Category → Int,
      indicators.foldl (fun raw i => Function.update raw i.1 (raw i.1 + i.2.weight)) raw c =
        raw c + (indicators.map fun i => if i.1 = c then i.2.weight else 0).sum := by
    induction indicators with
    | nil => exact fun raw => (add_zero _).symm
    | cons i indicators ih =>
        intro raw
        rw [List.foldl_cons, ih, List.map_cons, List.sum_cons, ← add_assoc]
        by_cases hc : i.1 = c
        · rw [if_pos hc, ← hc, Function.update_self]
        · rw [if_neg hc, Function.update_of_ne (Ne.symm hc), add_zero]
  exact (hfold fun _ => 0).trans (zero_add _)

/-- The sums of the weights do not depend on the order of the indicators. -/
theorem rawScores_files {policy : ScoringPolicy F} {rules : List Rule} (hrules : rules.Nodup)
    {filed sorted : List (Category × ScoreIndicator F)}
    (hfiled : List.Forall₂ (Files policy) rules filed) (hsorted : sorted.Perm filed) :
    rawScores sorted = policy.weighing.raw rules.toFinset := by
  funext c
  rw [rawScores_eq, (hsorted.map _).sum_eq, Weighing.raw_toFinset hrules]
  refine congrArg List.sum ?_
  clear hrules hsorted
  induction hfiled with
  | nil => rfl
  | cons hfiles _ ih => rw [List.map_cons, List.map_cons, ih, hfiles.1, hfiles.2.1]

/-- What `score` has computed. -/
structure Scored (policy : ScoringPolicy F) (scan : StaticScanResult F) (result : ScoringResult F) :
    Prop where
  score : result.score = min 100 (max 0 (policy.weighing.total (policy.triggered scan).toFinset))
  decision : result.decision = policy.verdict result.score
    (policy.weighing.capped (policy.triggered scan).toFinset .static)
  rules : (result.indicators.map ScoreIndicator.rule).Perm
    ((policy.triggered scan).map Rule.text)

theorem files_ok {policy : ScoringPolicy F} (hpolicy : policy.Accepted) {rules : List Rule}
    {indicators : List (ScoreIndicator F)} {filed : List (Category × ScoreIndicator F)}
    (h : List.Forall₂ policy.Indicates rules indicators)
    (hfiled : List.Forall₂ (fun i ci => i.filed = .ok ci) indicators filed) :
    List.Forall₂ (Files policy) rules filed := by
  induction h generalizing filed with
  | nil =>
      cases hfiled
      exact .nil
  | cons hi _ ih =>
      obtain _ | ⟨hci, hcis⟩ := hfiled
      exact .cons (hi.files hpolicy hci) (ih hcis)

theorem files_rules {policy : ScoringPolicy F} {rules : List Rule}
    {filed : List (Category × ScoreIndicator F)} (h : List.Forall₂ (Files policy) rules filed) :
    filed.map (fun i => i.2.rule) = rules.map Rule.text := by
  induction h with
  | nil => rfl
  | cons hi _ ih => rw [List.map_cons, List.map_cons, hi.2.2, ih]

theorem total_eq (W : Weighing Rule Category) (s : Finset Rule) :
    W.total s = W.capped s .entropy + W.capped s .static + W.capped s .context := by
  show ∑ c ∈ {Category.entropy, .static, .context}, W.capped s c = _
  rw [Finset.sum_insert (by decide), Finset.sum_insert (by decide), Finset.sum_singleton, add_assoc]

theorem fired_sublist (findings : List (Finding F)) :
    (fired findings).Sublist (findings.map Finding.rule) :=
  List.filter_sublist.map Finding.rule

theorem staticFindings_rules (scan : StaticScanResult F) :
    (staticFindings scan).map Finding.rule =
      [.mimeExtensionInconsistent, .malformedElf, .writableExecutableSection,
        .writableExecutableSegment, .elfEntryPointZero, .elfNoSectionHeaders, .suidBitSet,
        .sgidBitSet, .worldWritableAndExecutable, .worldWritable] :=
  rfl

theorem contextFindings_rules (scan : StaticScanResult F) :
    (contextFindings scan).map Finding.rule =
      [.temporaryDirectory, .downloadDirectory, .removableOrMountedMedia, .hiddenPathComponent] :=
  rfl

theorem entropyRules_sublist (policy : ScoringPolicy F) (scan : StaticScanResult F) :
    (policy.entropyRules scan).Sublist [.highWholeFileEntropy, .highEntropyBlockRatio] := by
  have hsingle : ∀ (b : Bool) (r : Rule), (if b then [r] else []).Sublist [r] := by
    intro b r
    cases b <;> simp
  exact (hsingle _ _).append (hsingle _ _)

/-- No rule is triggered twice. -/
theorem triggered_nodup (policy : ScoringPolicy F) (scan : StaticScanResult F) :
    (policy.triggered scan).Nodup := by
  have hsub := ((entropyRules_sublist policy scan).append (fired_sublist (staticFindings scan))).append
    (fired_sublist (contextFindings scan))
  rw [staticFindings_rules, contextFindings_rules] at hsub
  exact hsub.nodup (by decide)

theorem categoryScores_ok {policy : ScoringPolicy F} (hpolicy : policy.Accepted)
    {raw capped : Category → Int} (h : policy.categoryScores raw = .ok capped) (c : Category) :
    capped c = min (raw c) (policy.cap c) := by
  have hscore : ∀ {c : Category} {n : Int}, policy.categoryScore raw c = .ok n →
      n = min (raw c) (policy.cap c) := by
    intro c n hn
    obtain ⟨cap, hcap, hn⟩ := bind_ok.1 hn
    obtain rfl := Except.ok.inj ((hpolicy.categoryCap c).symm.trans hcap)
    exact (Except.ok.inj hn).symm
  obtain ⟨entropy, hentropy, h⟩ := bind_ok.1 h
  obtain ⟨static, hstatic, h⟩ := bind_ok.1 h
  obtain ⟨context, hcontext, h⟩ := bind_ok.1 h
  obtain rfl := Except.ok.inj h
  cases c with
  | entropy => exact hscore hentropy
  | static => exact hscore hstatic
  | context => exact hscore hcontext

/-- **What `score` computes**, for an accepted policy and a scan that has not failed. -/
theorem score_ok {policy : ScoringPolicy F} (hpolicy : policy.Accepted) {scan : StaticScanResult F}
    {result : ScoringResult F} (hstatus : scan.status ≠ .error)
    (h : policy.score scan = .ok result) : Scored policy scan result := by
  rw [ScoringPolicy.score, if_neg hstatus] at h
  obtain ⟨entropy, hentropy, h⟩ := bind_ok.1 h
  obtain ⟨static, hstatic, h⟩ := bind_ok.1 h
  obtain ⟨context, hcontext, h⟩ := bind_ok.1 h
  obtain ⟨filed, hsorted, h⟩ := bind_ok.1 h
  obtain ⟨unsorted, hunsorted, hfiled⟩ := bind_ok.1 hsorted
  obtain ⟨capped, hcapped, h⟩ := bind_ok.1 h
  obtain ⟨⟨d, notes⟩, hdecision, h⟩ := bind_ok.1 h
  obtain rfl := Except.ok.inj h
  have hperm : filed.Perm unsorted := Except.ok.inj hfiled ▸ List.perm_insertionSort _ _
  have hindicates : List.Forall₂ policy.Indicates (policy.triggered scan)
      (entropy ++ static ++ context) :=
    List.rel_append (List.rel_append (ScoringPolicy.collectEntropy_ok hentropy)
      (ScoringPolicy.collect_ok hstatic)) (ScoringPolicy.collect_ok hcontext)
  have hfiles := files_ok hpolicy hindicates (mapM_ok hunsorted)
  have hraw := rawScores_files (triggered_nodup policy scan) hfiles hperm
  have hscores : capped = policy.weighing.capped (policy.triggered scan).toFinset := by
    funext c
    rw [categoryScores_ok hpolicy hcapped c, hraw]
    rfl
  refine ⟨?_, ?_, ?_⟩
  · show min policy.scoreMaximum (max policy.scoreMinimum _) = _
    rw [hpolicy.scoreMinimum, hpolicy.scoreMaximum, total_eq, hscores]
  · rw [← hscores]
    exact hpolicy.decision_ok hdecision
  · show ((filed.map Prod.snd).map ScoreIndicator.rule).Perm _
    rw [← files_rules hfiles, List.map_map]
    exact hperm.map _

end Elyra.Scoring
