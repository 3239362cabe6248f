import Mathlib.Algebra.Order.Field.Rat
import Mathlib.Data.List.Sort
import Elyra.Counting.Thresholds
import Elyra.Python.Exceptions

set_option autoImplicit false

/-! # Threshold calibration

`measurement/calibration.py`, with the rates as exact rationals: the observed scores whose false
positive rate meets the target are the candidates, and `max` takes the one of the highest recall and,
among these, of the lowest threshold.

Both rates fall as the threshold rises, so this is the lowest candidate (`recommended_isLeast`). No
threshold that meets the target has a higher recall, observed or not. Another one can have the same
recall at a lower false positive rate: when nothing malicious scores exactly the recommended threshold,
raising it by one costs no recall and clears the benign records that score it. -/

namespace Elyra.Measurement

open Elyra.Python Elyra.Counting

structure CalibrationRecord where
  score : Int
  label : Bool
  deriving DecidableEq, Repr

/-- The tuples of `feasible`. -/
structure Candidate where
  recallRate : ℚ
  fpr : ℚ
  threshold : Int
  deriving DecidableEq

structure Recommendation where
  threshold : Int
  falsePositiveRate : ℚ
  recallRate : ℚ
  targetFalsePositiveRate : ℚ
  sampleCount : Nat
  policyMutated : Bool
  deriving DecidableEq

/-- The dictionaries returned, one constructor for each `status`. All but the last have `None` for the
    `threshold`. -/
inductive Calibration where
  | insufficientData (sampleCount : Nat)
  | insufficientClassCoverage (sampleCount : Nat)
  | noThresholdMeetsTarget (sampleCount : Nat)
  | recommendationOnly (r : Recommendation)
  deriving DecidableEq

variable (items : List CalibrationRecord)

def negatives : Nat := items.countP fun item => !item.label

def positives : Nat := items.countP fun item => item.label

/-- `tp` of a threshold. -/
def truePositives (threshold : Int) : Nat :=
  items.countP fun item => item.label && decide (threshold ≤ item.score)

/-- `fp` of a threshold. -/
def falsePositives (threshold : Int) : Nat :=
  items.countP fun item => !item.label && decide (threshold ≤ item.score)

def recallAt (threshold : Int) : ℚ := truePositives items threshold / positives items

def fprAt (threshold : Int) : ℚ := falsePositives items threshold / negatives items

/-- `sorted({item.score for item in items})` -/
def observedScores : List Int :=
  (items.map CalibrationRecord.score).dedup.insertionSort (· ≤ ·)

def feasible (target : ℚ) : List Candidate :=
  (observedScores items).filterMap fun threshold =>
    if fprAt items threshold ≤ target then
      some ⟨recallAt items threshold, fprAt items threshold, threshold⟩
    else none

/-- The order of the keys of `max`, first by recall, in its computable form. -/
instance preorderKeys : Preorder (ℚ ×ₗ ℤ) :=
  (@Prod.Lex.instLinearOrder ℚ ℤ _ Int.instLinearOrder).toPreorder

/-- `max(feasible, key=lambda candidate: (candidate[0], -candidate[2]))`; `none` for an empty list. -/
def recommended (target : ℚ) : Option Candidate :=
  (feasible items target).argmax fun candidate => toLex (candidate.recallRate, -candidate.threshold)

def calibrateDenyThreshold (maxFalsePositiveRate : ℚ) : Except Exc Calibration :=
  if ¬ (0 ≤ maxFalsePositiveRate ∧ maxFalsePositiveRate ≤ 1) then
    .error ⟨.valueError, py "max_false_positive_rate must be between 0 and 1"⟩
  else if items = [] then .ok (.insufficientData 0)
  else if items.any fun item => !decide (0 ≤ item.score ∧ item.score ≤ 100) then
    .error ⟨.valueError, py "scores must be in the range 0..100"⟩
  else if negatives items = 0 ∨ positives items = 0 then
    .ok (.insufficientClassCoverage items.length)
  else
    match recommended items maxFalsePositiveRate with
    | none => .ok (.noThresholdMeetsTarget items.length)
    | some candidate =>
        .ok (.recommendationOnly
          { threshold := candidate.threshold, falsePositiveRate := candidate.fpr,
            recallRate := candidate.recallRate, targetFalsePositiveRate := maxFalsePositiveRate,
            sampleCount := items.length, policyMutated := false })

/-! ## The rates as counts of scores -/

/-- The scores of the records of one label. -/
def scoresOf (label : Bool) : List Int :=
  (items.filter fun item => item.label == label).map CalibrationRecord.score

variable {items}

theorem mem_scoresOf {label : Bool} {s : Int} :
    s ∈ scoresOf items label ↔ (⟨s, label⟩ : CalibrationRecord) ∈ items := by
  simp only [scoresOf, List.mem_map, List.mem_filter, beq_iff_eq]
  constructor
  · rintro ⟨⟨_, _⟩, ⟨hmem, rfl⟩, rfl⟩
    exact hmem
  · exact fun h => ⟨_, ⟨h, rfl⟩, rfl⟩

theorem countP_score (p : CalibrationRecord → Bool) (t : Int) :
    items.countP (fun item => p item && decide (t ≤ item.score)) =
      atLeast ((items.filter p).map CalibrationRecord.score) t := by
  rw [atLeast, List.countP_map, List.countP_filter]
  refine List.countP_congr ?_
  intro item _
  simp [and_comm]

theorem truePositives_eq (t : Int) : truePositives items t = atLeast (scoresOf items true) t := by
  rw [truePositives, countP_score, scoresOf]
  congr 2
  exact List.filter_congr fun item _ => by cases item.label <;> rfl

theorem falsePositives_eq (t : Int) :
    falsePositives items t = atLeast (scoresOf items false) t := by
  rw [falsePositives, countP_score fun item => !item.label, scoresOf]
  congr 2
  exact List.filter_congr fun item _ => by cases item.label <;> rfl

theorem recallAt_antitone : Antitone (recallAt items) := by
  intro s t hst
  rw [recallAt, recallAt, truePositives_eq, truePositives_eq]
  gcongr
  exact atLeast_antitone _ hst

theorem fprAt_antitone : Antitone (fprAt items) := by
  intro s t hst
  rw [fprAt, fprAt, falsePositives_eq, falsePositives_eq]
  gcongr
  exact atLeast_antitone _ hst

theorem recallAt_eq_iff (hpos : positives items ≠ 0) {s t : Int} (hst : s ≤ t) :
    recallAt items t = recallAt items s ↔ ∀ x ∈ scoresOf items true, s ≤ x → t ≤ x := by
  rw [recallAt, recallAt, div_left_inj' (Nat.cast_ne_zero.2 hpos), Nat.cast_inj, truePositives_eq,
    truePositives_eq, eq_comm, atLeast_eq_iff hst]

theorem fprAt_lt_iff (hneg : negatives items ≠ 0) {s t : Int} (hst : s ≤ t) :
    fprAt items t < fprAt items s ↔ ∃ x ∈ scoresOf items false, s ≤ x ∧ x < t := by
  have hneg' : (0 : ℚ) < negatives items := by exact_mod_cast Nat.pos_of_ne_zero hneg
  rw [fprAt, fprAt, div_lt_div_iff_of_pos_right hneg', Nat.cast_lt, falsePositives_eq,
    falsePositives_eq, atLeast_lt_iff hst]

theorem mem_observedScores {s : Int} :
    s ∈ observedScores items ↔ ∃ label, s ∈ scoresOf items label := by
  simp only [observedScores, List.mem_insertionSort, List.mem_dedup, List.mem_map, mem_scoresOf]
  constructor
  · rintro ⟨⟨_, label⟩, hmem, rfl⟩
    exact ⟨label, hmem⟩
  · rintro ⟨label, hmem⟩
    exact ⟨_, hmem, rfl⟩

/-! ## The candidate chosen -/

theorem mem_feasible {target : ℚ} {c : Candidate} :
    c ∈ feasible items target ↔ c.threshold ∈ observedScores items ∧
      fprAt items c.threshold ≤ target ∧ c.recallRate = recallAt items c.threshold ∧
      c.fpr = fprAt items c.threshold := by
  simp only [feasible, List.mem_filterMap]
  constructor
  · rintro ⟨t, ht, hc⟩
    split at hc
    · next hle =>
        obtain rfl := Option.some.inj hc
        exact ⟨ht, hle, rfl, rfl⟩
    · cases hc
  · rintro ⟨ht, hle, hr, hf⟩
    refine ⟨c.threshold, ht, ?_⟩
    rw [if_pos hle, ← hr, ← hf]

/-- The recommendation is the lowest observed score that meets the target. -/
theorem recommended_isLeast {target : ℚ} {c : Candidate} (h : recommended items target = some c) :
    c ∈ feasible items target ∧
      ∀ s ∈ observedScores items, fprAt items s ≤ target → c.threshold ≤ s := by
  have hmem : c ∈ feasible items target := List.argmax_mem h
  refine ⟨hmem, ?_⟩
  intro s hs hle
  have hgain : ∀ a ∈ feasible items target, ∀ b ∈ feasible items target,
      a.threshold ≤ b.threshold → b.recallRate ≤ a.recallRate := by
    intro a ha b hb hab
    rw [(mem_feasible.1 ha).2.2.1, (mem_feasible.1 hb).2.2.1]
    exact recallAt_antitone hab
  exact argmax_isLeast (f := fun t : Int => -t) (fun _ _ => neg_lt_neg) hgain h
    ⟨recallAt items s, fprAt items s, s⟩ (mem_feasible.2 ⟨hs, hle, rfl, rfl⟩)

/-- The thresholds the recommendation is measured against: integers from 0 to 100, no higher than the
    largest observed score, that meet the target. -/
structure Admissible (items : List CalibrationRecord) (target : ℚ) (t : Int) : Prop where
  nonneg : 0 ≤ t
  le : t ≤ 100
  observed : ∃ item ∈ items, t ≤ item.score
  meets : fprAt items t ≤ target

/-- What a recommendation promises. The last field says what the tie-break costs: a threshold of the
    same recall is cheaper in false positives exactly if the recommended score is a benign one alone and
    not the largest. -/
structure Recommendation.Sound (items : List CalibrationRecord) (target : ℚ) (r : Recommendation) :
    Prop where
  observed : ∃ item ∈ items, item.score = r.threshold
  meets : fprAt items r.threshold ≤ target
  fpr : r.falsePositiveRate = fprAt items r.threshold
  recallRate : r.recallRate = recallAt items r.threshold
  best : ∀ t, Admissible items target t → recallAt items t ≤ r.recallRate
  lowest : ∀ item ∈ items, fprAt items item.score ≤ target → r.threshold ≤ item.score
  cheaper : (∃ t, Admissible items target t ∧ recallAt items t = r.recallRate ∧
      fprAt items t < r.falsePositiveRate) ↔
    ⟨r.threshold, true⟩ ∉ items ∧ ∃ item ∈ items, r.threshold < item.score

/-- What a result promises. -/
def Calibration.Sound (items : List CalibrationRecord) (target : ℚ) : Calibration → Prop
  | .noThresholdMeetsTarget _ => ∀ item ∈ items, target < fprAt items item.score
  | .recommendationOnly r => r.Sound items target
  | _ => True

theorem mem_observedScores_of_mem {item : CalibrationRecord} (h : item ∈ items) :
    item.score ∈ observedScores items := mem_observedScores.2 ⟨item.label, mem_scoresOf.2 h⟩

/-- An admissible threshold can be raised to an observed score at the same rates. -/
theorem Admissible.next {target : ℚ} {t : Int} (h : Admissible items target t) :
    ∃ s ∈ observedScores items, t ≤ s ∧ ∀ label, ∀ x ∈ scoresOf items label, t ≤ x → s ≤ x := by
  obtain ⟨item, hitem, ht⟩ := h.observed
  obtain ⟨s, hs, hts, hnext⟩ := exists_next ⟨item.score, mem_observedScores_of_mem hitem, ht⟩
  refine ⟨s, hs, hts, ?_⟩
  intro label x hx
  exact hnext x (mem_observedScores.2 ⟨label, hx⟩)

/-- What the checks before the search leave. -/
theorem calibrateDenyThreshold_ok {target : ℚ} {c : Calibration}
    (h : calibrateDenyThreshold items target = .ok c) :
    (∃ n, c = .insufficientData n ∨ c = .insufficientClassCoverage n) ∨
      (∀ item ∈ items, 0 ≤ item.score ∧ item.score ≤ 100) ∧ negatives items ≠ 0 ∧
        positives items ≠ 0 ∧
        match recommended items target with
        | none => c = .noThresholdMeetsTarget items.length
        | some candidate => c = .recommendationOnly ⟨candidate.threshold, candidate.fpr,
            candidate.recallRate, target, items.length, false⟩ := by
  unfold calibrateDenyThreshold at h
  split at h
  · cases h
  split at h
  · exact .inl ⟨0, .inl (Except.ok.inj h).symm⟩
  split at h
  · cases h
  next hrange =>
  split at h
  · exact .inl ⟨items.length, .inr (Except.ok.inj h).symm⟩
  next hcover =>
  refine .inr ⟨?_, fun hn => hcover (.inl hn), fun hp => hcover (.inr hp), ?_⟩
  · intro item hitem
    by_contra hout
    exact hrange (List.any_eq_true.2 ⟨item, hitem, by simpa only [Bool.not_eq_true', decide_eq_false_iff_not] using hout⟩)
  · split at h
    · exact (Except.ok.inj h).symm
    · exact (Except.ok.inj h).symm

/-- The recommended candidate has the best recall, and the tie-break decides its rate. -/
theorem recommended_sound {target : ℚ} {c : Candidate} (h : recommended items target = some c)
    (hrange : ∀ item ∈ items, 0 ≤ item.score ∧ item.score ≤ 100) (hneg : negatives items ≠ 0)
    (hpos : positives items ≠ 0) {n : Nat} {b : Bool} :
    Recommendation.Sound items target ⟨c.threshold, c.fpr, c.recallRate, target, n, b⟩ := by
  obtain ⟨hmem, hleast⟩ := recommended_isLeast h
  obtain ⟨hobs, hmeets, hrecall, hfpr⟩ := mem_feasible.1 hmem
  obtain ⟨label, hlabel⟩ := mem_observedScores.1 hobs
  have hmem' := mem_scoresOf.1 hlabel
  refine ⟨⟨_, hmem', rfl⟩, hmeets, hfpr, hrecall, ?_, ?_, ?_⟩
  · intro t ht
    obtain ⟨s, hs, hts, hnext⟩ := ht.next
    have hfs : fprAt items s ≤ target := (fprAt_antitone hts).trans ht.meets
    calc recallAt items t = recallAt items s := ((recallAt_eq_iff hpos hts).2 (hnext true)).symm
      _ ≤ recallAt items c.threshold := recallAt_antitone (hleast s hs hfs)
      _ = c.recallRate := hrecall.symm
  · exact fun item hitem => hleast _ (mem_observedScores_of_mem hitem)
  · simp only [hrecall, hfpr]
    constructor
    · rintro ⟨t, ht, hsame, hlower⟩
      have hlt : c.threshold < t := by
        by_contra hle
        exact absurd (fprAt_antitone (not_lt.1 hle)) (not_le.2 hlower)
      refine ⟨?_, ?_⟩
      · intro htrue
        have := (recallAt_eq_iff hpos hlt.le).1 hsame _ (mem_scoresOf.2 htrue) le_rfl
        omega
      · obtain ⟨item, hitem, hti⟩ := ht.observed
        exact ⟨item, hitem, lt_of_lt_of_le hlt hti⟩
    · rintro ⟨hbenign, item, hitem, hlt⟩
      -- no malicious record scores the recommended threshold, so one point more costs no recall
      have hstep : c.threshold ≤ c.threshold + 1 := by omega
      have hlower : fprAt items (c.threshold + 1) < fprAt items c.threshold := by
        refine (fprAt_lt_iff hneg hstep).2 ⟨c.threshold, mem_scoresOf.2 ?_, le_rfl, by omega⟩
        cases label with
        | false => exact hmem'
        | true => exact absurd hmem' hbenign
      refine ⟨c.threshold + 1, ⟨?_, ?_, ⟨item, hitem, hlt⟩, hlower.le.trans hmeets⟩, ?_, hlower⟩
      · have := (hrange _ hmem').1
        simp only at this
        omega
      · have := (hrange item hitem).2
        omega
      · refine (recallAt_eq_iff hpos hstep).2 ?_
        intro x hx hle
        have hne : x ≠ c.threshold := by
          rintro rfl
          exact hbenign (mem_scoresOf.1 hx)
        omega

/-- A recommendation has the best recall the target allows and goes to the lowest threshold with it;
    without one, no observed score meets the target. -/
theorem calibrateDenyThreshold_sound (items : List CalibrationRecord) (target : ℚ) (c : Calibration)
    (h : calibrateDenyThreshold items target = .ok c) : c.Sound items target := by
  rcases calibrateDenyThreshold_ok h with ⟨n, rfl | rfl⟩ | ⟨hrange, hneg, hpos, hc⟩
  · exact trivial
  · exact trivial
  · split at hc
    · next hnone =>
        subst hc
        intro item hitem
        have hempty : feasible items target = [] := List.argmax_eq_none.1 hnone
        by_contra hle
        have hmem : (⟨recallAt items item.score, fprAt items item.score, item.score⟩ : Candidate) ∈
            feasible items target :=
          mem_feasible.2 ⟨mem_observedScores_of_mem hitem, not_lt.1 hle, rfl, rfl⟩
        rw [hempty] at hmem
        cases hmem
    · next candidate hsome =>
        subst hc
        exact recommended_sound hsome hrange hneg hpos

/-- One benign record at 10 and one malicious at 20: with any rate allowed, 10 is recommended. -/
theorem calibration_of_two :
    Recommendation.Sound [⟨10, false⟩, ⟨20, true⟩] 1 ⟨10, 1, 1, 1, 2, false⟩ :=
  calibrateDenyThreshold_sound [⟨10, false⟩, ⟨20, true⟩] 1 (.recommendationOnly ⟨10, 1, 1, 1, 2, false⟩)
    (by decide +kernel)

/-- The tie-break takes 10, where 20 has the same recall and no false positive. -/
theorem tie_break_costs_false_positives :
    calibrateDenyThreshold [⟨10, false⟩, ⟨20, true⟩] 1 =
        .ok (.recommendationOnly ⟨10, 1, 1, 1, 2, false⟩) ∧
      (∃ item ∈ [(⟨10, false⟩ : CalibrationRecord), ⟨20, true⟩], item.score = 20) ∧
      recallAt [⟨10, false⟩, ⟨20, true⟩] 20 = 1 ∧ fprAt [⟨10, false⟩, ⟨20, true⟩] 20 = 0 := by
  decide +kernel

end Elyra.Measurement
