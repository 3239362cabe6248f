import Elyra.Scoring.Gate

set_option autoImplicit false
set_option linter.unusedSectionVars false

/-! # More evidence

A scan with more evidence triggers more rules, with one exception: a file that is executable besides
being world-writable triggers another rule instead. Where the policy files that rule under the same
category with at least the same weight, scores and decisions are monotone in the evidence. -/

namespace Elyra.Scoring

open Elyra.Python

variable {F : Type} [OrderedFloat F]

/-- The second scan has all evidence of the first. -/
structure MoreEvidence (scan scan' : StaticScanResult F) : Prop where
  entropy : ∀ key ∈ ["whole_file_entropy", "high_entropy_block_ratio"], ∀ x,
    scan.entropy key = .ok x → ∀ y, scan'.entropy key = .ok y → x = y ∨ OrderedFloat.le x y = true
  mime : scan.mimeExtensionConsistency = py "INCONSISTENT" →
    scan'.mimeExtensionConsistency = py "INCONSISTENT"
  codes : scan.errorCodes [] ⊆ scan'.errorCodes []
  elf : scan.elfAnomalies ⊆ scan'.elfAnomalies
  permission : scan.permissionAnomalies ⊆ scan'.permissionAnomalies
  path : scan.pathIndicators ⊆ scan'.pathIndicators

/-- `ALLOW`, `ALLOW_MONITOR`, `WARN`, `DENY`. -/
def Decision.rank : Decision → Nat
  | .allow => 0
  | .allowMonitor => 1
  | .warn => 2
  | .deny => 3

/-- The second scan triggers the rule for executable files where the first triggers the one for
    world-writable files. -/
def WorldReplaced (scan scan' : StaticScanResult F) : Prop :=
  Rule.worldWritable.text ∈ scan.permissionAnomalies ∧
    Rule.worldWritableAndExecutable.text ∉ scan.permissionAnomalies ∧
      Rule.worldWritableAndExecutable.text ∈ scan'.permissionAnomalies

instance (scan scan' : StaticScanResult F) : Decidable (WorldReplaced scan scan') :=
  inferInstanceAs (Decidable (_ ∧ _ ∧ _))

/-- The rule for executable files weighs at least as much as the one it replaces, in the same
    category. -/
def WorldOrdered (policy : ScoringPolicy F) : Prop :=
  policy.weighing.weight .worldWritable = 0 ∨
    policy.weighing.category .worldWritableAndExecutable = policy.weighing.category .worldWritable ∧
      policy.weighing.weight .worldWritable ≤ policy.weighing.weight .worldWritableAndExecutable

instance (policy : ScoringPolicy F) : Decidable (WorldOrdered policy) :=
  inferInstanceAs (Decidable (_ ∨ _ ∧ _))

/-! ## Triggered rules -/

theorem mem_fired {findings : List (Finding F)} {r : Rule} :
    r ∈ fired findings ↔ ∃ f ∈ findings, f.fires = true ∧ f.rule = r := by
  rw [fired, List.mem_map]
  constructor
  · rintro ⟨f, hf, hr⟩
    obtain ⟨hf, hfires⟩ := List.mem_filter.1 hf
    exact ⟨f, hf, hfires, hr⟩
  · rintro ⟨f, hf, hfires, hr⟩
    exact ⟨f, List.mem_filter.2 ⟨hf, hfires⟩, hr⟩

/-- The second check fires where the first does. -/
def FiresMore (f f' : Finding F) : Prop :=
  f'.rule = f.rule ∧ (f.fires = true → f'.fires = true)

theorem fired_subset {findings findings' : List (Finding F)}
    (h : List.Forall₂ FiresMore findings findings') : fired findings ⊆ fired findings' := by
  intro r hr
  obtain ⟨f, hf, hfires, rfl⟩ := mem_fired.1 hr
  refine mem_fired.2 ?_
  clear hr
  induction h with
  | nil => cases hf
  | @cons g g' _ _ hmore _ ih =>
      rcases List.mem_cons.1 hf with rfl | hf
      · exact ⟨g', List.mem_cons_self, hmore.2 hfires, hmore.1⟩
      · obtain ⟨f', hf', h'⟩ := ih hf
        exact ⟨f', List.mem_cons_of_mem _ hf', h'⟩

theorem exact_more {values values' : List PyStr} (h : values ⊆ values') (r : Rule)
    (evidence evidence' : Json F) :
    FiresMore (exact values r evidence) (exact values' r evidence') :=
  ⟨rfl, fun hfires => decide_eq_true (h (of_decide_eq_true hfires))⟩

theorem matchingPrefix_ne_nil {values : List PyStr} {pre : PyStr} :
    matchingPrefix values pre ≠ [] ↔ ∃ v ∈ values, pre.isPrefixOf v = true := by
  rw [matchingPrefix, ← List.length_pos_iff, List.length_insertionSort, List.length_pos_iff]
  constructor
  · intro h
    obtain ⟨v, hv⟩ := List.exists_mem_of_ne_nil _ h
    obtain ⟨hv, hpre⟩ := List.mem_filter.1 hv
    exact ⟨v, hv, hpre⟩
  · rintro ⟨v, hv, hpre⟩
    exact List.ne_nil_of_mem (List.mem_filter.2 ⟨hv, hpre⟩)

theorem anyPrefix_more {values values' : List PyStr} (h : values ⊆ values') (pre : String)
    (r : Rule) : FiresMore (anyPrefix (F := F) values pre r) (anyPrefix values' pre r) := by
  refine ⟨rfl, fun hfires => ?_⟩
  have hsome : matchingPrefix values (py pre) ≠ [] := by
    intro hnil
    simp [anyPrefix, hnil] at hfires
  obtain ⟨v, hv, hpre⟩ := matchingPrefix_ne_nil.1 hsome
  have hsome' := matchingPrefix_ne_nil.2 ⟨v, h hv, hpre⟩
  show (!(matchingPrefix values' (py pre)).isEmpty) = true
  simpa using hsome'

variable {scan scan' : StaticScanResult F}

/-- The check for world-writable files. -/
def worldFinding (scan : StaticScanResult F) : Finding F :=
  { exact scan.permissionAnomalies .worldWritable scan.modeOctal with
    fires := (exact scan.permissionAnomalies .worldWritable scan.modeOctal).fires &&
      !(exact scan.permissionAnomalies .worldWritableAndExecutable scan.modeOctal).fires }

theorem worldFinding_fires :
    (worldFinding scan).fires = true ↔ Rule.worldWritable.text ∈ scan.permissionAnomalies ∧
      Rule.worldWritableAndExecutable.text ∉ scan.permissionAnomalies := by
  simp [worldFinding, exact]

theorem staticFindings_eq (scan : StaticScanResult F) :
    staticFindings scan = (staticFindings scan).dropLast ++ [worldFinding scan] :=
  rfl

theorem static_more (h : MoreEvidence scan scan') :
    List.Forall₂ FiresMore (staticFindings scan).dropLast (staticFindings scan').dropLast := by
  have hcodes : (scan.errorCodes []).insertionSort (fun a b => keyLe a b) ⊆
      (scan'.errorCodes []).insertionSort fun a b => keyLe a b := by
    intro code hcode
    exact (List.mem_insertionSort _).2 (h.codes ((List.mem_insertionSort _).1 hcode))
  refine .cons ⟨rfl, fun hfires => decide_eq_true (h.mime (of_decide_eq_true hfires))⟩ ?_
  refine .cons (exact_more hcodes ..) ?_
  refine .cons (anyPrefix_more h.elf ..) (.cons (anyPrefix_more h.elf ..) ?_)
  refine .cons (exact_more h.elf ..) (.cons (exact_more h.elf ..) ?_)
  refine .cons (exact_more h.permission ..) (.cons (exact_more h.permission ..) ?_)
  exact .cons (exact_more h.permission ..) .nil

theorem context_more (h : MoreEvidence scan scan') :
    List.Forall₂ FiresMore (contextFindings scan) (contextFindings scan') :=
  .cons (exact_more h.path ..) (.cons (exact_more h.path ..) (.cons (exact_more h.path ..)
    (.cons (exact_more h.path ..) .nil)))

theorem reaches_more {policy : ScoringPolicy F} (h : MoreEvidence scan scan') {rule : Rule}
    {key : String} (hkey : key ∈ ["whole_file_entropy", "high_entropy_block_ratio"]) {y : F}
    (hy : scan'.entropy key = .ok y) (hreaches : policy.reaches scan rule key = true) :
    policy.reaches scan' rule key = true := by
  rw [ScoringPolicy.reaches] at hreaches ⊢
  cases hx : scan.entropy key with
  | error e =>
      rw [hx] at hreaches
      cases hreaches
  | ok x =>
      cases ht : policy.threshold rule with
      | error e =>
          rw [hx, ht] at hreaches
          cases hreaches
      | ok least =>
          rw [hx, ht] at hreaches
          rw [hy]
          rcases h.entropy key hkey x hx y hy with rfl | hle
          · exact hreaches
          · exact OrderedFloat.le_trans hreaches hle

/-- The entropy values of a scan that is scored convert. -/
theorem entropy_converts {policy : ScoringPolicy F} {result : ScoringResult F}
    (hstatus : scan.status ≠ .error) (h : policy.score scan = .ok result) :
    ∀ key ∈ ["whole_file_entropy", "high_entropy_block_ratio"], ∃ y, scan.entropy key = .ok y := by
  rw [ScoringPolicy.score, if_neg hstatus] at h
  obtain ⟨_, hentropy, -⟩ := bind_ok.1 h
  obtain ⟨whole, hwhole, hentropy⟩ := bind_ok.1 hentropy
  obtain ⟨ratio, hratio, -⟩ := bind_ok.1 hentropy
  intro key hkey
  rcases List.mem_pair.1 hkey with rfl | rfl
  · exact ⟨whole, mapError_ok.1 hwhole⟩
  · exact ⟨ratio, mapError_ok.1 hratio⟩

theorem entropy_more {policy : ScoringPolicy F} (h : MoreEvidence scan scan')
    (hconverts : ∀ key ∈ ["whole_file_entropy", "high_entropy_block_ratio"],
      ∃ y, scan'.entropy key = .ok y) :
    policy.entropyRules scan ⊆ policy.entropyRules scan' := by
  have hmore : ∀ (rule : Rule), ∀ key ∈ ["whole_file_entropy", "high_entropy_block_ratio"],
      (if policy.reaches scan rule key then [rule] else []) ⊆
        if policy.reaches scan' rule key then [rule] else [] := by
    intro rule key hkey
    obtain ⟨y, hy⟩ := hconverts key hkey
    by_cases hreaches : policy.reaches scan rule key = true
    · rw [if_pos hreaches, if_pos (reaches_more h hkey hy hreaches)]
      exact List.Subset.refl _
    · rw [if_neg hreaches]
      exact List.nil_subset _
  rw [ScoringPolicy.entropyRules, ScoringPolicy.entropyRules]
  refine List.append_subset.2 ⟨?_, ?_⟩
  · exact List.subset_append_of_subset_left _ (hmore .highWholeFileEntropy _ (by decide))
  · exact List.subset_append_of_subset_right _ (hmore .highEntropyBlockRatio _ (by decide))

theorem fired_append (findings findings' : List (Finding F)) :
    fired (findings ++ findings') = fired findings ++ fired findings' := by
  rw [fired, List.filter_append, List.map_append, ← fired, ← fired]

theorem mem_triggered {policy : ScoringPolicy F} {r : Rule} :
    r ∈ policy.triggered scan ↔ r ∈ policy.entropyRules scan ∨
      r ∈ fired (staticFindings scan).dropLast ∨ r ∈ fired [worldFinding scan] ∨
        r ∈ fired (contextFindings scan) := by
  rw [ScoringPolicy.triggered, staticFindings_eq, fired_append, List.mem_append, List.mem_append,
    List.mem_append, List.dropLast_concat, or_assoc, or_assoc]

theorem mem_fired_world {r : Rule} :
    r ∈ fired [worldFinding scan] ↔ (worldFinding scan).fires = true ∧ r = .worldWritable := by
  rw [mem_fired]
  constructor
  · rintro ⟨f, hf, hfires, rfl⟩
    obtain rfl := List.mem_singleton.1 hf
    exact ⟨hfires, rfl⟩
  · rintro ⟨hfires, rfl⟩
    exact ⟨_, List.mem_singleton_self _, hfires, rfl⟩

/-- Every other rule stays triggered. -/
theorem triggered_kept {policy : ScoringPolicy F} (h : MoreEvidence scan scan')
    (hconverts : ∀ key ∈ ["whole_file_entropy", "high_entropy_block_ratio"],
      ∃ y, scan'.entropy key = .ok y) {r : Rule} (hr : r ∈ policy.triggered scan)
    (hworld : r ≠ .worldWritable ∨ ¬ WorldReplaced scan scan') : r ∈ policy.triggered scan' := by
  rw [mem_triggered] at hr ⊢
  rcases hr with hr | hr | hr | hr
  · exact .inl (entropy_more h hconverts hr)
  · exact .inr (.inl (fired_subset (static_more h) hr))
  · obtain ⟨hfires, rfl⟩ := mem_fired_world.1 hr
    have hfires := worldFinding_fires.1 hfires
    refine .inr (.inr (.inl (mem_fired_world.2 ⟨worldFinding_fires.2 ?_, rfl⟩)))
    refine ⟨h.permission hfires.1, fun hboth => ?_⟩
    exact hworld.elim (fun hne => hne rfl) fun hnot => hnot ⟨hfires.1, hfires.2, hboth⟩
  · exact .inr (.inr (.inr (fired_subset (context_more h) hr)))

theorem mem_triggered_both {policy : ScoringPolicy F} :
    .worldWritableAndExecutable ∈ policy.triggered scan ↔
      Rule.worldWritableAndExecutable.text ∈ scan.permissionAnomalies := by
  have hentropy : .worldWritableAndExecutable ∉ policy.entropyRules scan := fun hr =>
    absurd ((entropyRules_sublist policy scan).subset hr) (by decide)
  have hcontext : .worldWritableAndExecutable ∉ fired (contextFindings scan) := fun hr =>
    absurd (contextFindings_rules scan ▸ (fired_sublist _).subset hr) (by decide)
  have hworld : .worldWritableAndExecutable ∉ fired [worldFinding scan] := fun hr =>
    absurd (mem_fired_world.1 hr).2 (by decide)
  rw [mem_triggered, or_iff_right hentropy, or_iff_left hcontext, or_iff_left hworld]
  simp [mem_fired, staticFindings, exact, anyPrefix]

/-! ## Scores and decisions -/

/-- The rules of the first scan have counterparts among those of the second. -/
theorem triggered_covered {policy : ScoringPolicy F} (h : MoreEvidence scan scan')
    (hconverts : ∀ key ∈ ["whole_file_entropy", "high_entropy_block_ratio"],
      ∃ y, scan'.entropy key = .ok y) (hworld : WorldOrdered policy ∨ ¬ WorldReplaced scan scan') :
    ∃ counterpart, policy.weighing.Covers (policy.triggered scan).toFinset
      (policy.triggered scan').toFinset counterpart := by
  by_cases hreplaced : WorldReplaced scan scan'
  · refine ⟨_, Weighing.Covers.replace (fun r hr hne => ?_) (List.mem_toFinset.2 ?_) ?_
      (hworld.resolve_right fun hnot => hnot hreplaced)⟩
    · exact List.mem_toFinset.2 (triggered_kept h hconverts (List.mem_toFinset.1 hr) (.inl hne))
    · exact mem_triggered_both.2 hreplaced.2.2
    · exact fun hboth => hreplaced.2.1 (mem_triggered_both.1 (List.mem_toFinset.1 hboth))
  · refine ⟨id, Weighing.Covers.of_subset fun r hr => ?_⟩
    exact List.mem_toFinset.2
      (triggered_kept h hconverts (List.mem_toFinset.1 hr) (.inr hreplaced))

theorem ScoringPolicy.Accepted.weight_nonneg {policy : ScoringPolicy F} (h : policy.Accepted)
    (r : Rule) : 0 ≤ policy.weighing.weight r := by
  show 0 ≤ (policy.rules.get? r.text).elim 0 RuleSpec.weight
  cases hget : policy.rules.get? r.text with
  | none => exact le_rfl
  | some spec => exact (h.rule _ spec hget).2.2

theorem ScoringPolicy.Accepted.verdict_mono {policy : ScoringPolicy F} (h : policy.Accepted)
    {score score' static static' : Int} (hscore : score ≤ score') (hstatic : static ≤ static') :
    (policy.verdict score static).rank ≤ (policy.verdict score' static').rank := by
  have hincreasing := h.increasing
  unfold ScoringPolicy.verdict
  split_ifs <;> simp only [Decision.rank] <;> omega

/-- **Scoring is monotone**, except where a rule of less weight, or of another category, replaces the
    one for world-writable files. -/
theorem score_mono {policy : ScoringPolicy F} (hvalid : policy.validate = .ok ())
    (hstatus : scan.status ≠ .error) (hstatus' : scan'.status ≠ .error)
    (h : MoreEvidence scan scan') (hworld : WorldOrdered policy ∨ ¬ WorldReplaced scan scan')
    {result result' : ScoringResult F} (hscore : policy.score scan = .ok result)
    (hscore' : policy.score scan' = .ok result') :
    result.score ≤ result'.score ∧ result.decision.rank ≤ result'.decision.rank := by
  have hpolicy := ScoringPolicy.accepted hvalid
  have hscored := score_ok hpolicy hstatus hscore
  have hscored' := score_ok hpolicy hstatus' hscore'
  have hnonneg : ∀ r ∈ (policy.triggered scan').toFinset, 0 ≤ policy.weighing.weight r :=
    fun r _ => hpolicy.weight_nonneg r
  obtain ⟨_, hcovers⟩ := triggered_covered h (entropy_converts hstatus' hscore') hworld
  have htotal := Weighing.total_le hnonneg hcovers
  have hstatic := Weighing.capped_le hnonneg hcovers .static
  have hle : result.score ≤ result'.score := by
    rw [hscored.score, hscored'.score]
    omega
  refine ⟨hle, ?_⟩
  rw [hscored.decision, hscored'.decision]
  exact hpolicy.verdict_mono hle hstatic

/-! ## A world-writable file -/

/-- A policy with the given rule for executable files. -/
def worldPolicy (c : Category) (weight : Int) : ScoringPolicy SampleFloat :=
  samplePolicy 10 (withRule (withRule (entropyPolicy 0).rules .worldWritable .static 30)
    .worldWritableAndExecutable c weight)

def worldScan (permissionAnomalies : List PyStr) : StaticScanResult SampleFloat :=
  { plainScan with permissionAnomalies := permissionAnomalies }

def writableScan : StaticScanResult SampleFloat := worldScan [Rule.worldWritable.text]

def executableScan : StaticScanResult SampleFloat :=
  worldScan [Rule.worldWritable.text, Rule.worldWritableAndExecutable.text]

theorem writable_more : MoreEvidence writableScan executableScan where
  entropy _ _ _ hx _ hy := .inl (Except.ok.inj (hx.symm.trans hy))
  mime h := h
  codes := List.Subset.refl _
  elf := List.Subset.refl _
  permission := List.subset_append_left [_] [_]
  path := List.Subset.refl _

theorem score_of_isOk {policy : ScoringPolicy F} (h : (outcome policy scan).isOk = true) :
    ∃ result, policy.score scan = .ok result := by
  rw [outcome] at h
  cases hscore : policy.score scan with
  | error e =>
      rw [hscore] at h
      cases h
  | ok result => exact ⟨result, rfl⟩

/-- The second scan has all evidence of the first, scores less, and is not denied any more. -/
theorem executable_scores_less :
    (worldPolicy .static 5).validate = .ok () ∧ MoreEvidence writableScan executableScan ∧
      ∃ result result', (worldPolicy .static 5).score writableScan = .ok result ∧
        (worldPolicy .static 5).score executableScan = .ok result' ∧
          result'.score < result.score ∧ result'.decision.rank < result.decision.rank := by
  have hwritable : outcome (worldPolicy .static 5) writableScan = .ok (90, .deny,
      [Rule.highEntropyBlockRatio.text, Rule.highWholeFileEntropy.text,
        Rule.worldWritable.text]) := by
    decide +kernel
  have hexecutable : outcome (worldPolicy .static 5) executableScan = .ok (65, .warn,
      [Rule.highEntropyBlockRatio.text, Rule.highWholeFileEntropy.text,
        Rule.worldWritableAndExecutable.text]) := by
    decide +kernel
  obtain ⟨result, hresult, hscore, hdecision, -⟩ := outcome_ok hwritable
  obtain ⟨result', hresult', hscore', hdecision', -⟩ := outcome_ok hexecutable
  refine ⟨by decide +kernel, writable_more, result, result', hresult, hresult', ?_, ?_⟩
  · rw [hscore, hscore']
    decide
  · rw [hdecision, hdecision']
    decide

/-- Where executable files weigh more, they score more. -/
theorem executable_scores_more :
    ∃ result result', (worldPolicy .static 40).score writableScan = .ok result ∧
      (worldPolicy .static 40).score executableScan = .ok result' ∧
        result.score ≤ result'.score ∧ result.decision.rank ≤ result'.decision.rank := by
  have hwritable : (outcome (worldPolicy .static 40) writableScan).isOk := by decide +kernel
  have hexecutable : (outcome (worldPolicy .static 40) executableScan).isOk := by decide +kernel
  obtain ⟨result, hresult⟩ := score_of_isOk hwritable
  obtain ⟨result', hresult'⟩ := score_of_isOk hexecutable
  have hordered : WorldOrdered (worldPolicy .static 40) := by decide +kernel
  exact ⟨result, result', hresult, hresult', score_mono (by decide +kernel) (by decide) (by decide)
    writable_more (.inl hordered) hresult hresult'⟩

end Elyra.Scoring
