import Elyra.Audit.Failure

set_option autoImplicit false
set_option linter.unusedSectionVars false

/-! # Recovery after a crash

An append may stop anywhere: before or after its rotation, with any part of its line on disk. The
next `__init__` cuts the active file after its last line feed and keeps the rest under `corrupt/`.
As no part of a line but the whole holds a line feed, this removes exactly what the append has
written, unless the line is complete. -/

namespace Elyra.Audit

open Elyra.Python

variable {F : Type} [FloatNum F] {H : HexDigest}

/-! ## Cutting the fragment -/

/-- The complete part of a file that ends with a part of a line. -/
theorem completeLength_append {last w : Bytes} (hlast : last = [] ∨ endsWithLf last = true)
    (hw : ∀ b ∈ w, b ≠ lf) : completeLength (last ++ w) = last.length := by
  have hpass : ∀ b ∈ w.reverse, (b != lf) = true := by
    intro b hb
    simpa using hw b (List.mem_reverse.1 hb)
  unfold completeLength
  rw [List.reverse_append, List.dropWhile_append_of_pos hpass]
  rcases List.eq_nil_or_concat last with rfl | ⟨init, b, rfl⟩
  · rfl
  · have hb : b = lf := by
      rcases hlast with hlast | hlast
      · exact absurd hlast (by simp)
      · simpa [endsWithLf] using hlast
    simp [hb]

/-- A part of a line has no line feed. -/
theorem part_no_lf {entry : Mapping F} {line w : Bytes} (hline : encodeLine entry = .ok line)
    (hpre : w <+: line) (hpart : w ≠ line) : ∀ b ∈ w, b ≠ lf := by
  obtain ⟨text, body, -, -, rfl, hends, -⟩ := encodeLine_eq hline
  obtain ⟨rest, hrest⟩ := hpre
  intro b hb
  rcases List.eq_nil_or_concat rest with rfl | ⟨rest', x, rfl⟩
  · exact absurd (by simpa using hrest) hpart
  · simp only [List.concat_eq_append, ← List.append_assoc] at hrest
    obtain ⟨hbody, -⟩ := List.append_inj' hrest rfl
    exact (hends b (hbody ▸ List.mem_append_left _ hb)).1

/-- What is under the fragment: the records that retention kept. -/
theorem AppendState.fragment {before after : List Bytes} {limit : Nat} {w : Bytes}
    {active : Option Bytes} (h : AppendState before limit w after active) (hw : w ≠ [])
    {records : List (Mapping F)} (hbefore : Holds before records) :
    ∃ j gone kept init last, j ≤ limit ∧ records = gone ++ kept ∧ Holds (before.drop j) kept ∧
      after = init ++ [last ++ w] ∧ active = some (last ++ w) ∧ Holds (init ++ [last]) kept := by
  cases h with
  | untouched j hj hactive => exact absurd rfl hw
  | extended j hj init last _ hlast =>
      obtain ⟨gone, kept, hrec, -, hkept⟩ := hbefore.drop j
      refine ⟨j, gone, kept, init, last, hj, hrec, hkept, rfl, rfl, ?_⟩
      rcases hlast with hlast | ⟨hlast, rfl⟩
      · rw [← hlast]
        exact hkept
      · rw [hlast] at hkept
        exact holds_append.2 ⟨kept, [], hkept, holds_empty, by simp⟩

/-- **The repair removes the fragment and keeps its bytes.** -/
theorem repairActive_fragment {c : Config} {artifact : PyStr} {dir : Dir} {init : List Bytes}
    {last w : Bytes} (hactive : dir.files.get? c.fileName = some (last ++ w))
    (hcontents : contents c.fileName dir = init ++ [last ++ w]) (hne : w ≠ [])
    (hlast : last = [] ∨ endsWithLf last = true) (hw : ∀ b ∈ w, b ≠ lf)
    (hfree : corruptTaken dir = false) (hfresh : dir.corrupt.get? artifact = none) :
    ∃ dir', repairActive c artifact dir = .ok (some artifact, dir') ∧
      contents c.fileName dir' = init ++ [last] ∧ dir'.corrupt.get? artifact = some w := by
  have hlen := completeLength_append hlast hw
  have hincomplete : ¬ (last ++ w = [] ∨ endsWithLf (last ++ w) = true) := by
    rintro (hnil | hends)
    · exact hne (List.append_eq_nil_iff.1 hnil).2
    · obtain ⟨w', b, rfl⟩ : ∃ w' b, w = w' ++ [b] := by
        rcases List.eq_nil_or_concat w with hnil | ⟨w', b, hc⟩
        · exact absurd hnil hne
        · exact ⟨w', b, by simpa using hc⟩
      have hb : b = lf := by simpa [endsWithLf, ← List.append_assoc] using hends
      exact hw b (by simp) hb
  refine ⟨{ files := dir.files.set c.fileName last, corrupt := dir.corrupt.set artifact w }, ?_, ?_,
    Dict.get?_set_self ..⟩
  · simp only [repairActive, hactive, if_neg hincomplete, hfree, hfresh, Option.isSome_none,
      Bool.false_eq_true, if_false, hlen, List.take_left, List.drop_left]
  · have hrotated : rotatedOf c.fileName
        { files := dir.files.set c.fileName last, corrupt := dir.corrupt.set artifact w } =
        rotatedOf c.fileName dir := rotatedOf_set_active last
    rw [contents_eq, hrotated, Dict.get?_set_self]
    rw [active_last hactive] at hcontents
    rw [(List.append_inj' hcontents rfl).1]
    rfl

/-- The repair gives no file a new name. -/
theorem repairActive_names {c : Config} {artifact : PyStr} {dir dir' : Dir} {taken : Option PyStr}
    (h : repairActive c artifact dir = .ok (taken, dir')) : NamesFrom c.fileName dir dir' := by
  have hself := NamesFrom.refl c.fileName dir
  unfold repairActive at h
  split at h
  · cases h
    exact hself
  · split_ifs at h
    · cases h
      exact hself
    · cases h
      exact hself.set (.inl rfl) _ _

/-- Opening after the repair. -/
theorem openLogger_repaired {c : Config} {env : OpenEnv F} {dir dir' : Dir} {artifact : Option PyStr}
    {records : List (Mapping F)} {s : Scan} (hc : c.valid = true)
    (hon : c.repairTrailingPartial = true)
    (hrepair : repairActive c env.artifact dir = .ok (artifact, dir'))
    (h : ValidLog H c.fileName dir' records s) :
    ∃ lg, openLogger H c env dir = (.ok lg, dir') := by
  unfold openLogger
  rw [if_neg (by simp [hc]), if_pos hon, hrepair]
  simp only [h.verify, Scan.report, if_true]
  exact ⟨_, rfl⟩

/-! ## Every crash point -/

/-- What a stopped append has written is under names that the logger gives. -/
theorem plan_targets {lg lg' : Logger} {dir : Dir} {stamp : Except PyExc (Stamp F)}
    {input : RecordInput F} {plan : Plan F} {done : List Effect}
    (hprepare : prepare H lg dir stamp input = (lg', .ok plan)) (hcut : Cut plan.effects done) :
    ∀ e ∈ done, ∀ name ∈ e.target, LogName lg.config.fileName name := by
  obtain ⟨hash, n, st, -, -, rfl, hplan⟩ := prepare_ok hprepare
  have heffects : plan.effects = appendEffects lg.config dir plan.line := hplan.effects
  rw [heffects] at hcut
  exact hcut.targets (appendEffects_targets lg.config dir plan.line)

/-- What a crashed append leaves to the next `__init__`: the active file as it was or the whole line,
    or a fragment on top of the records that retention kept. -/
theorem crash_repaired {lg lg' : Logger} {dir : Dir} {stamp : Except PyExc (Stamp F)}
    {input : RecordInput F} {plan : Plan F} {done : List Effect} {records : List (Mapping F)}
    {s : Scan} (hvalid : ValidLog H lg.config.fileName dir records s) (hstep : InStep lg records s)
    (hseen : TailReached (contents lg.config.fileName dir).reverse)
    (hindex : nextRotationIndex lg.config.fileName dir ≤ 999999)
    (hprepare : prepare H lg dir stamp input = (lg', .ok plan)) (hcut : Cut plan.effects done)
    {c : Config} (hname : c.fileName = lg.config.fileName) (hfile : c.fileName ≠ py "corrupt")
    (hfree : corruptTaken dir = false) {artifact : PyStr}
    (hfresh : dir.corrupt.get? artifact = none) :
    ∃ taken dir' j gone kept t, repairActive c artifact (applyAll dir done) = .ok (taken, dir') ∧
      j ≤ retention lg.config dir plan.line ∧ records = gone ++ kept ∧
      Holds ((contents lg.config.fileName dir).drop j) kept ∧
      ValidLog H lg.config.fileName dir'
        (if written done = plan.line then kept ++ [plan.entry] else kept) t ∧
      (written done ≠ [] → written done ≠ plan.line →
        dir'.corrupt.get? artifact = some (written done)) := by
  have hnames : NamesFrom lg.config.fileName dir (applyAll dir done) :=
    applyAll_names (plan_targets hprepare hcut)
  rw [← hname] at hnames
  obtain ⟨n, htail, hn, -, -⟩ := tailState_valid hvalid hseen hstep
  obtain ⟨hash, n', st, htail', -, hlg', hplan⟩ := prepare_ok hprepare
  rw [htail] at htail'
  simp only [Except.ok.injEq, Prod.mk.injEq] at htail'
  obtain ⟨rfl, rfl⟩ := htail'
  have hconfig : lg'.config = lg.config := by rw [hlg']
  have heffects := hplan.effects
  rw [hconfig] at heffects
  rw [heffects] at hcut
  obtain ⟨hcorrupt, hinitial, -, hstate⟩ := cut_appendEffects (fun _ => hindex) hcut
  obtain ⟨text, body, -, -, hline, -, -⟩ := encodeLine_eq hplan.encoded
  by_cases hnone : written done = []
  · -- nothing of the line is there, and nothing is repaired
    have hpart : written done ≠ plan.line := by
      rw [hnone, hline]
      exact fun hnil => absurd hnil.symm (by simp)
    have hstate' := hstate
    rw [hnone] at hstate'
    obtain ⟨j, gone, kept, t, hj, hrec, -, hkept, hvalid', -, -⟩ := stopped_valid hvalid hstate'
    refine ⟨none, applyAll dir done, j, gone, kept, t, ?_, hj, hrec, hkept, ?_,
      fun hsome => absurd hnone hsome⟩
    · rw [← hname] at hvalid'
      exact repairActive_valid hvalid'.holds
    · rw [if_neg hpart]
      exact hvalid'
  · by_cases hwhole : written done = plan.line
    · rw [hwhole, ← hconfig] at hstate
      rw [← hconfig] at hvalid
      obtain ⟨j, gone, kept, t, hj, hrec, -, hkept, hvalid', -, -⟩ :=
        append_valid hplan hvalid (by rw [hlg']) (by rw [hlg']; exact hn) hstate
      rw [hconfig] at hj hkept hvalid'
      refine ⟨none, applyAll dir done, j, gone, kept, t, ?_, hj, hrec, hkept, ?_,
        fun _ hpart => absurd hwhole hpart⟩
      · rw [← hname] at hvalid'
        exact repairActive_valid hvalid'.holds
      · rw [if_pos hwhole]
        exact hvalid'
    · obtain ⟨j, gone, kept, init, last, hj, rfl, hkept, hafter, hactive, hheld⟩ :=
        hstate.fragment hnone hvalid.holds
      obtain ⟨t, ht, -, -⟩ := checkAll_kept hvalid.checked
      rw [← hname] at hactive hafter
      obtain ⟨dir', hrepair, hcontents, hkeep⟩ := repairActive_fragment hactive hafter hnone
        (hheld.complete last (by simp)) (part_no_lf hplan.encoded hinitial hwhole)
        (corruptTaken_of_names hnames hfile hfree) (by rw [hcorrupt]; exact hfresh)
      refine ⟨some artifact, dir', j, gone, kept, t, hrepair, hj, rfl, hkept, ?_, fun _ _ => hkeep⟩
      rw [if_neg hwhole, ← hname]
      exact ⟨by rw [hcontents]; exact hheld, ht⟩

theorem splitlines_blank (n : Nat) : splitlines (List.replicate n lf) = List.replicate n [] := by
  induction n with
  | zero => rfl
  | succ n ih =>
      have hone : splitlines [lf] = [[]] := by decide
      rw [List.replicate_succ, ← List.singleton_append, splitlines_append (.inr rfl), ih, hone]
      rfl

theorem holds_blank {data : Bytes} {records : List (Mapping F)} (h : Holds [data] records)
    (n : Nat) : Holds [data ++ List.replicate n lf] records := by
  have hcomplete := h.complete data (by simp)
  have hd := h.decoded
  refine ⟨fun x hx => ?_, ?_⟩
  · rw [List.mem_singleton.1 hx]
    cases n with
    | zero => simpa using hcomplete
    | succ n => exact .inr (endsWithLf_append (by simp [endsWithLf, List.replicate_succ']))
  · simp only [List.flatMap_cons, List.flatMap_nil, List.append_nil] at hd ⊢
    rw [splitlines_append hcomplete, splitlines_blank]
    refine decodeAll_append.2 ⟨records, [], hd, ?_, by simp⟩
    induction n with
    | zero => rfl
    | succ n ih => simp [List.replicate_succ, decodeAll, decodeLine, blank, ih]

/-- The tail of a single segment that ends with a window of blank lines. -/
theorem tailState_blank {lg : Logger} {data : Bytes} {dir : Dir}
    (h : segmentsFor lg.config.fileName dir =
      [(lg.config.fileName, data ++ List.replicate tailWindow lf)]) :
    tailState F lg dir = .ok (zeroHash, 0) := by
  have hlines : tailLines (data ++ List.replicate tailWindow lf) = [] := by
    have hlen : (List.replicate tailWindow lf).length = tailWindow := List.length_replicate
    unfold tailLines
    rw [lastBytes_append data _ hlen.le, hlen, Nat.sub_self, recordLines]
    simp only [lastBytes, List.take_zero, List.reverse_nil, List.nil_append, splitlines_blank]
    simp [blank]
  unfold tailState
  rw [h]
  simp [tailFrom, hlines]

/-- Opening refuses records that do not chain. -/
theorem openLogger_unchained {c : Config} {env : OpenEnv F} {dir : Dir} {records : List (Mapping F)}
    (hholds : Holds (contents c.fileName dir) records) (hcheck : checkAll H {} records = none)
    (hraise : c.quarantineCorrupt = false) (lg : Logger) (dir' : Dir) :
    openLogger H c env dir ≠ (.ok lg, dir') := by
  intro hopen
  have hrepair : (if c.repairTrailingPartial then repairActive c env.artifact dir
      else .ok (none, dir)) = .ok (none, dir) := by
    split
    · exact repairActive_valid hholds
    · rfl
  unfold openLogger at hopen
  split at hopen
  · exact absurd (congrArg Prod.fst hopen) (by simp)
  · rw [hrepair] at hopen
    simp only at hopen
    split at hopen
    · exact absurd (congrArg Prod.fst hopen) (by simp)
    · next report hverify =>
      split at hopen
      · next hvalid =>
        obtain ⟨records', s, ⟨hholds', hcheck'⟩, -⟩ := verify_iff.1 ⟨hverify, hvalid⟩
        rw [hholds'.unique hholds, hcheck] at hcheck'
        exact absurd hcheck' (by simp)
      · exact absurd (congrArg Prod.fst hopen) (by simp)

theorem cut_all (effects : List Effect) : Cut effects effects := by
  induction effects with
  | nil => exact .stop []
  | cons e effects ih => exact .step e ih

/-- A second record that starts a chain of its own does not check. -/
theorem checkAll_restart {hash hash' : PyStr} {n m : Int} {entry entry' : Mapping F}
    (hbuilt : Built H zeroHash n hash entry) (hbuilt' : Built H zeroHash m hash' entry')
    (hne : hash ≠ zeroHash) : checkAll H {} [entry, entry'] = none := by
  cases hcheck : checkAll H {} [entry, entry'] with
  | none => rfl
  | some s =>
      obtain ⟨t, ht, hstep⟩ := checkAll_append.1 (show checkAll H {} ([entry] ++ [entry']) = some s
        from hcheck)
      obtain ⟨hlast, hlink, -⟩ := checkAll_last (show checkAll H {} ([] ++ [entry]) = some t from ht)
      rw [hbuilt.hash_eq] at hlast
      simp only [checkAll] at hstep
      split at hstep
      · next s₁ hs₁ =>
        obtain ⟨stored, prev, sequence, -, -, hprev, hprevious, -, -, -⟩ := checkRecord_ok_iff.1 hs₁
        rw [hbuilt'.prev_eq] at hprev
        simp only [hexHashOf, zeroHash_hex, if_true, Option.some.injEq] at hprev hlast
        rw [hlink, ← hprev] at hprevious
        simp only [reduceCtorEq, Option.some.injEq, false_or] at hprevious
        split at hlast
        · simp only [Option.some.injEq] at hlast
          exact absurd (hlast.trans hprevious) hne
        · exact absurd hlast (by simp)
      · exact absurd hstep (by simp)

def wideConfig : Config := { sampleConfig with maxBytes := 10 * 1024 * 1024 }

/-- The record of `sampleInput` at the start of a chain. -/
theorem sample_planned (stamp : Stamp SampleFloat) (hstamp : stamp = sampleStamp ∨ stamp = nextStamp) :
    ∃ entry line, buildEntry sha256Digest stamp zeroHash 0 sampleInput = .ok entry ∧
      encodeLine entry = .ok line ∧ line.length ≤ 1024 ∧
      hexHashOf (lookup (py "record_hash") entry) ≠ some zeroHash := by
  have hcheck : ((buildEntry sha256Digest stamp zeroHash 0 sampleInput).toOption.any fun entry =>
      (encodeLine entry).toOption.any fun line => decide (line.length ≤ 1024 ∧
        hexHashOf (lookup (py "record_hash") entry) ≠ some zeroHash)) = true := by
    rcases hstamp with rfl | rfl <;> decide +kernel
  obtain ⟨entry, hentry, hcheck⟩ := exists_of_any hcheck
  obtain ⟨line, hline, hcheck⟩ := exists_of_any hcheck
  exact ⟨entry, line, hentry, hline, by simpa using hcheck⟩

end Elyra.Audit
