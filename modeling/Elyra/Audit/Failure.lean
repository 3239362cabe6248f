import Elyra.Audit.Chain

set_option autoImplicit false
set_option linter.unusedSectionVars false

/-! # A `record` that raises

`_append_bytes_locked` takes nothing back: the bytes it has written when it raises stay at the end of
the active file. So a failed `record` leaves the log as it was (`Harmless`) only if it has written no
byte of its line. A part of the line makes the log invalid, and the whole line, with the exception
from the `fsync` after it, is a record that the caller was told is not there. -/

namespace Elyra.Audit

open Elyra.Python

variable {F : Type} [FloatNum F] {H : HexDigest}

/-- A call of `record` that raises: the effects it has had, and the logger and the directory it leaves. -/
inductive Failed (H : HexDigest) (lg : Logger) (dir : Dir) (stamp : Except PyExc (Stamp F))
    (input : RecordInput F) : List Effect → Logger → Dir → Prop
  /-- The lock is not taken, or a segment cannot be read. -/
  | unread : Failed H lg dir stamp input [] lg dir
  /-- The input, the last record or the new one is refused. -/
  | refused {lg' : Logger} {x : Raised} (h : prepare H lg dir stamp input = (lg', .error x)) :
      Failed H lg dir stamp input [] lg' dir
  /-- The rotation or the write stops. -/
  | stopped {lg' : Logger} {plan : Plan F} {done : List Effect}
      (h : prepare H lg dir stamp input = (lg', .ok plan)) (hcut : Cut plan.effects done) :
      Failed H lg dir stamp input done lg' (applyAll dir done)
  /-- The lock is not released. -/
  | locked {lg' : Logger} {plan : Plan F} (h : prepare H lg dir stamp input = (lg', .ok plan)) :
      Failed H lg dir stamp input plan.effects
        { lg' with lastHash := plan.hash, lastSequence := lg'.lastSequence + 1 }
        (applyAll dir plan.effects)

/-- The active segment has been renamed. -/
def Renamed (done : List Effect) : Prop := ∃ src dst, Effect.replace src dst ∈ done

/-- The line of the call pushes the active segment over the limit. -/
def Rotates (H : HexDigest) (lg : Logger) (dir : Dir) (stamp : Except PyExc (Stamp F))
    (input : RecordInput F) : Prop :=
  ∃ plan, (prepare H lg dir stamp input).2 = .ok plan ∧
    needsRotation lg.config dir plan.line = true

/-- The next rotation of the directory has a number of six digits. -/
def Numbers (lg : Logger) (dir : Dir) : Prop := nextRotationIndex lg.config.fileName dir ≤ 999999

/-- The next `record` on a log that ends at `t`: a record that can be built there is written and
    makes a valid log of the records that retention keeps and the new one. -/
def NextRecord (H : HexDigest) (lg : Logger) (dir : Dir) (t : Scan) (stamp : Stamp F)
    (input : RecordInput F) : Prop :=
  ∃ n, tailState F lg dir = .ok (t.lastHash, n) ∧
    ∀ plan, planAppend H { lg with lastHash := t.lastHash, lastSequence := n } dir stamp input =
        .ok plan →
      ∃ lg' dir' j kept t', record H lg dir (.ok stamp) input = (.ok plan.hash, lg', dir') ∧
        j ≤ retention lg.config dir plan.line ∧
        Holds ((contents lg.config.fileName dir).drop j) kept ∧
        ValidLog H lg.config.fileName dir' (kept ++ [plan.entry]) t'

/-- How many segments the call may remove before it raises. -/
def retentionOf (H : HexDigest) (lg : Logger) (dir : Dir) (stamp : Except PyExc (Stamp F))
    (input : RecordInput F) : Nat :=
  match (prepare H lg dir stamp input).2 with
  | .error _ => 0
  | .ok plan => retention lg.config dir plan.line

attribute [grind =] retentionOf

/-- The failed call has not damaged the log: the segments that retention keeps hold what they held,
    the log is valid, and the next `record` continues it. -/
def Harmless (H : HexDigest) (lg : Logger) (dir : Dir) (stamp : Except PyExc (Stamp F))
    (input : RecordInput F) (lg' : Logger) (dir' : Dir) (stamp' : Stamp F) (input' : RecordInput F) :
    Prop :=
  ∃ (j : Nat) (kept : List (Mapping F)) (t : Scan), j ≤ retentionOf H lg dir stamp input ∧
    Holds ((contents lg.config.fileName dir).drop j) kept ∧
    ValidLog H lg.config.fileName dir' kept t ∧ NextRecord H lg' dir' t stamp' input'

/-! ## A call that has written nothing -/

/-- A valid log whose end can be read is continued. -/
theorem nextRecord_valid {lg : Logger} {dir : Dir} {records : List (Mapping F)} {s : Scan}
    (hvalid : ValidLog H lg.config.fileName dir records s)
    (hseen : TailReached (contents lg.config.fileName dir).reverse) (hstep : InStep lg records s)
    {stamp : Stamp F} {input : RecordInput F} (hinput : validateRecordInput input = .ok ())
    (hnumbers : Rotates H lg dir (.ok stamp) input → Numbers lg dir) :
    NextRecord H lg dir s stamp input := by
  obtain ⟨n, htail, hn, -, -⟩ := tailState_valid hvalid hseen hstep
  refine ⟨n, htail, fun plan hplan => ?_⟩
  have hfacts := planAppend_facts hplan
  have hprepare : prepare H lg dir (.ok stamp) input =
      ({ lg with lastHash := s.lastHash, lastSequence := n }, .ok plan) := by
    simp only [prepare, refresh, hinput, htail, hplan]
  have hrecord : record H lg dir (.ok stamp) input =
      (.ok plan.hash, { lg with lastHash := plan.hash, lastSequence := n + 1 },
        applyAll dir plan.effects) := by
    simp only [record, hprepare]
  have hindex : needsRotation lg.config dir plan.line = true →
      nextRotationIndex lg.config.fileName dir ≤ 999999 :=
    fun hneeds => hnumbers ⟨plan, by rw [hprepare], hneeds⟩
  have hstate : AppendState (contents lg.config.fileName dir) (retention lg.config dir plan.line)
      plan.line (contents lg.config.fileName (applyAll dir plan.effects))
      ((applyAll dir plan.effects).files.get? lg.config.fileName) := by
    rw [hfacts.effects]
    exact (full_appendEffects hindex).2
  obtain ⟨j, gone, kept, t, hj, -, -, hkept, hvalid', -, -⟩ :=
    append_valid hfacts hvalid rfl hn hstate
  exact ⟨_, _, j, kept, t, hrecord, hj, hkept, hvalid'⟩

/-- After an append that has written nothing, the last record is as close as it was. -/
theorem AppendState.quiet_reached {before after : List Bytes} {limit : Nat} {active : Option Bytes}
    (h : AppendState before limit [] after active) (hseen : TailReached before.reverse) :
    TailReached after.reverse := by
  have hdrop : ∀ j, TailReached (before.drop j).reverse := by
    intro j
    rw [List.reverse_drop]
    exact hseen.take _
  generalize hw : ([] : Bytes) = w at h
  cases h with
  | untouched j hj hactive => exact hdrop j
  | extended j hj init last _ hlast =>
      subst hw
      rw [List.append_nil]
      rcases hlast with hlast | ⟨hlast, rfl⟩
      · rw [← hlast]
        exact hdrop j
      · rw [List.reverse_append, ← hlast]
        exact ⟨tailSeen_nil, fun _ => hdrop j⟩

/-- The logger a call leaves behind when it raises. -/
theorem prepare_logger {lg lg' : Logger} {dir : Dir} {stamp : Except PyExc (Stamp F)}
    {input : RecordInput F} {result : Except Raised (Plan F)} {hash : PyStr} {n : Int}
    (htail : tailState F lg dir = .ok (hash, n))
    (h : prepare H lg dir stamp input = (lg', result)) :
    lg' = lg ∨ lg' = { lg with lastHash := hash, lastSequence := n } := by
  unfold prepare refresh at h
  split at h
  · exact .inl (congrArg Prod.fst h).symm
  · next lg₁ hrefresh =>
    right
    split at hrefresh
    · exact absurd hrefresh (by simp)
    · simp only [htail, Except.ok.injEq] at hrefresh
      split at h <;> exact (congrArg Prod.fst h).symm.trans hrefresh.symm

/-- A whole append has written its line. -/
theorem written_appendEffects (c : Config) (dir : Dir) (line : Bytes) :
    written (appendEffects c dir line) = line := by
  have hquiet : ∀ name data, Effect.append name data ∉
      (if needsRotation c dir line then rotateEffects c dir else []) := by
    intro name data
    split
    · exact rotateEffects_quiet name data
    · exact List.not_mem_nil
  rw [appendEffects, written_quiet hquiet]
  simp [written]

theorem PlanFacts.line_ne {lg : Logger} {dir : Dir} {stamp : Stamp F} {input : RecordInput F}
    {plan : Plan F} (hplan : PlanFacts H lg dir stamp input plan) : plan.line ≠ [] := by
  obtain ⟨text, body, -, -, hline, -⟩ := encodeLine_eq hplan.encoded
  simp [hline]

/-- What a rotation has done first is to rename the active segment. -/
theorem renamed_of_cut {c : Config} {dir : Dir} {line : Bytes} {done : List Effect}
    (hcut : Cut (appendEffects c dir line) done) (hneeds : needsRotation c dir line = true)
    (hdone : done ≠ []) : Renamed done := by
  obtain ⟨data, hactive, hdata⟩ := needsRotation_active hneeds
  have hne : ¬ (dir.files.get? c.fileName).getD [] = [] := by simpa [hactive] using hdata
  rw [appendEffects, if_pos hneeds, rotateEffects, if_neg hne] at hcut
  cases hcut with
  | stop => exact absurd rfl hdone
  | step e hcut => exact ⟨_, _, List.mem_cons_self⟩

/-- A call that has left the directory alone. -/
theorem harmless_untouched {lg lg' : Logger} {dir : Dir} {stamp : Except PyExc (Stamp F)}
    {input : RecordInput F} {records : List (Mapping F)} {s : Scan}
    (hvalid : ValidLog H lg.config.fileName dir records s)
    (hseen : TailReached (contents lg.config.fileName dir).reverse) (hconfig : lg'.config = lg.config)
    (hstep : InStep lg' records s) {stamp' : Stamp F} {input' : RecordInput F}
    (hinput : validateRecordInput input' = .ok ())
    (hnumbers : Rotates H lg' dir (.ok stamp') input' → Numbers lg' dir) :
    Harmless H lg dir stamp input lg' dir stamp' input' := by
  refine ⟨0, records, s, Nat.zero_le _, hvalid.holds, hvalid, ?_⟩
  rw [← hconfig] at hvalid hseen
  exact nextRecord_valid hvalid hseen hstep hinput hnumbers

/-- **A failed call that has written nothing is harmless.** -/
theorem failed_quiet {lg lg' : Logger} {dir dir' : Dir} {stamp : Except PyExc (Stamp F)}
    {input : RecordInput F} {done : List Effect}
    (hfailed : Failed H lg dir stamp input done lg' dir') (hquiet : written done = [])
    {records : List (Mapping F)} {s : Scan} (hvalid : ValidLog H lg.config.fileName dir records s)
    (hstep : InStep lg records s)
    (hseen : TailReached (contents lg.config.fileName dir).reverse)
    (hrenamed : Renamed done → Numbers lg dir) {stamp' : Stamp F} {input' : RecordInput F}
    (hinput : validateRecordInput input' = .ok ())
    (hnumbers : Rotates H lg' dir' (.ok stamp') input' → Numbers lg' dir') :
    Harmless H lg dir stamp input lg' dir' stamp' input' := by
  obtain ⟨n, htail, hn, -, -⟩ := tailState_valid hvalid hseen hstep
  have hlogger {result : Except Raised (Plan F)} {lg' : Logger}
      (hprepare : prepare H lg dir stamp input = (lg', result)) :
      lg'.config = lg.config ∧ InStep lg' records s := by
    rcases prepare_logger htail hprepare with rfl | rfl
    · exact ⟨rfl, hstep⟩
    · exact ⟨rfl, .inl hn⟩
  cases hfailed with
  | unread => exact harmless_untouched hvalid hseen rfl hstep hinput hnumbers
  | refused h =>
      obtain ⟨hconfig, hstep'⟩ := hlogger h
      exact harmless_untouched hvalid hseen hconfig hstep' hinput hnumbers
  | @stopped _ plan _ h hcut =>
      obtain ⟨hconfig, hstep'⟩ := hlogger h
      by_cases hnone : done = []
      · subst hnone
        exact harmless_untouched hvalid hseen hconfig hstep' hinput hnumbers
      obtain ⟨hash, n', _, htail', -, hlg', hplan⟩ := prepare_ok h
      rw [htail] at htail'
      simp only [Except.ok.injEq, Prod.mk.injEq] at htail'
      obtain ⟨rfl, rfl⟩ := htail'
      rw [hplan.effects, hconfig] at hcut
      obtain ⟨-, -, -, hstate⟩ := cut_appendEffects
        (fun hneeds => hrenamed (renamed_of_cut hcut hneeds hnone)) hcut
      rw [hquiet] at hstate
      obtain ⟨j, gone, kept, t, hj, -, -, hkept, hvalid', hbehind, -⟩ := stopped_valid hvalid hstate
      refine ⟨j, kept, t, ?_, hkept, hvalid', ?_⟩
      · rw [retentionOf, h]
        exact hj
      have hstep'' : InStep lg' kept t := by
        rw [hlg']
        exact .inl (hbehind.count.trans hn)
      refine nextRecord_valid ?_ ?_ hstep'' hinput hnumbers
      · rw [hconfig]
        exact hvalid'
      · rw [hconfig]
        exact hstate.quiet_reached hseen
  | locked h =>
      obtain ⟨_, _, _, -, -, -, hplan⟩ := prepare_ok h
      rw [hplan.effects, written_appendEffects] at hquiet
      exact absurd hquiet hplan.line_ne

/-! ## A call that has written something -/

/-- A rotation leaves the active file as it is, or moves it away. -/
theorem rotate_active (c : Config) (dir : Dir) :
    (applyAll dir (rotateEffects c dir)).files.get? c.fileName = none ∨
    (applyAll dir (rotateEffects c dir)).files.get? c.fileName = dir.files.get? c.fileName := by
  have hunlinks : ∀ (rotated : List Rotated) (d : Dir), (∀ r ∈ rotated, r.2.1 ≠ c.fileName) →
      (applyAll d (rotated.map fun r => Effect.unlink r.2.1)).files.get? c.fileName =
        d.files.get? c.fileName := by
    intro rotated
    induction rotated with
    | nil => exact fun _ _ => rfl
    | cons r rotated ih =>
        intro d hne
        obtain ⟨hr, hrest⟩ := List.forall_mem_cons.1 hne
        exact (ih _ hrest).trans (Dict.get?_pop_ne _ (Ne.symm hr))
  unfold rotateEffects
  split
  · exact .inr rfl
  · left
    refine (hunlinks _ _ fun r hr => ?_).trans ?_
    · have hidx := (mem_rotatedOf.1 (List.mem_of_mem_take hr)).2
      intro heq
      rw [heq, segmentNumber_fileName] at hidx
      exact absurd hidx (by simp)
    · cases hactive : dir.files.get? c.fileName with
      | none => simp only [Effect.apply, hactive]
      | some data =>
          simp only [Effect.apply, hactive]
          rw [Dict.get?_set_ne _ (Ne.symm (rotatedName_ne _)), Dict.get?_pop_self]

/-- Where the bytes of a stopped append are: at the end of the active file, after nothing or after
    what was there. This needs nothing about the names of rotated segments. -/
theorem cut_active {c : Config} {dir : Dir} {line : Bytes} {done : List Effect}
    (hcut : Cut (appendEffects c dir line) done) (hwritten : written done ≠ []) :
    written done <+: line ∧ ∃ last, (last = [] ∨ dir.files.get? c.fileName = some last) ∧
      (applyAll dir done).files.get? c.fileName = some (last ++ written done) := by
  obtain ⟨quiet, hquiet, hactive, hrest⟩ : ∃ quiet, (∀ name data, Effect.append name data ∉ quiet) ∧
      ((applyAll dir quiet).files.get? c.fileName = none ∨
        (applyAll dir quiet).files.get? c.fileName = dir.files.get? c.fileName) ∧
      appendEffects c dir line = quiet ++ [.create c.fileName, .append c.fileName line] := by
    unfold appendEffects
    split
    · exact ⟨rotateEffects c dir, rotateEffects_quiet, rotate_active c dir, rfl⟩
    · exact ⟨[], by simp, .inr rfl, rfl⟩
  rw [hrest] at hcut
  rcases cut_quiet hquiet hcut with ⟨j, -, rfl⟩ | ⟨done', rfl, hcut'⟩
  · refine absurd ?_ hwritten
    have hquiet' : ∀ name data, Effect.append name data ∉ quiet.take j :=
      fun name data hmem => hquiet name data (List.mem_of_mem_take hmem)
    simpa [written] using written_quiet hquiet' []
  · rw [written_quiet hquiet] at hwritten ⊢
    obtain ⟨hinitial, ⟨rfl, -⟩ | h⟩ := (shape_self c (applyAll dir quiet)).cut_append hcut'
    · exact absurd rfl hwritten
    · rw [applyAll_append]
      refine ⟨hinitial, _, ?_, h.active⟩
      rcases hactive with hactive | hactive
      · exact .inl (by simp [hactive])
      · rw [hactive]
        cases dir.files.get? c.fileName with
        | none => exact .inl rfl
        | some data => exact .inr rfl

/-- A part of the line ends the log in a fragment. -/
theorem fragment_not_held {lg : Logger} {dir : Dir} {stamp : Stamp F} {input : RecordInput F}
    {plan : Plan F} (hplan : PlanFacts H lg dir stamp input plan) {done : List Effect}
    (hcut : Cut plan.effects done) (hsome : written done ≠ []) (hpart : written done ≠ plan.line)
    (records : List (Mapping F)) : ¬ Holds (contents lg.config.fileName (applyAll dir done)) records := by
  intro hheld
  rw [hplan.effects] at hcut
  obtain ⟨hinitial, last, -, hactive⟩ := cut_active hcut hsome
  have hfragment : last ++ written done ≠ [] ∧ endsWithLf (last ++ written done) = false :=
    incomplete_line hplan.built.wf hplan.encoded hinitial hsome hpart
  rcases hheld.complete (last ++ written done) (by rw [active_last hactive]; simp) with hnil | hlf
  · exact hfragment.1 hnil
  · rw [hlf] at hfragment
    exact absurd hfragment.2 (by simp)

theorem Cut.all (effects : List Effect) : Cut effects effects := by
  induction effects with
  | nil => exact .stop []
  | cons e effects ih => exact .step e ih

/-- A call that has written something has stopped in its append, or at the lock after it. -/
theorem Failed.cut {lg lg' : Logger} {dir dir' : Dir} {stamp : Except PyExc (Stamp F)}
    {input : RecordInput F} {done : List Effect} (h : Failed H lg dir stamp input done lg' dir')
    (hsome : written done ≠ []) : ∃ lg₁ plan, prepare H lg dir stamp input = (lg₁, .ok plan) ∧
      Cut plan.effects done ∧ dir' = applyAll dir done := by
  cases h with
  | unread => exact absurd rfl hsome
  | refused h => exact absurd rfl hsome
  | stopped h hcut => exact ⟨_, _, h, hcut, rfl⟩
  | locked h => exact ⟨_, _, h, .all _, rfl⟩

/-- **A failed call that has written something is not harmless**: a part of the line ends the log in
    a fragment, and the whole line is one record too many. -/
theorem failed_written {lg lg' : Logger} {dir dir' : Dir} {stamp : Except PyExc (Stamp F)}
    {input : RecordInput F} {done : List Effect}
    (hfailed : Failed H lg dir stamp input done lg' dir') {records : List (Mapping F)}
    {s : Scan} (hvalid : ValidLog H lg.config.fileName dir records s)
    (hfresh : ∀ st, stamp = .ok st → ∀ entry ∈ records,
      lookup (py "record_id") entry ≠ some (.str st.recordId)) {stamp' : Stamp F} {input' : RecordInput F}
    (hharmless : Harmless H lg dir stamp input lg' dir' stamp' input') : written done = [] := by
  by_contra hsome
  obtain ⟨lg₁, plan, h, hcut, rfl⟩ := hfailed.cut hsome
  obtain ⟨j, kept, t, -, hkept, hafter, -⟩ := hharmless
  obtain ⟨hash, n, st, -, hst, hlg₁, hplan⟩ := prepare_ok h
  have hconfig : lg₁.config = lg.config := by rw [hlg₁]
  have hheld := hafter.holds
  rw [← hconfig] at hheld
  have hwhole : written done = plan.line := by
    by_contra hpart
    exact fragment_not_held hplan hcut hsome hpart kept hheld
  -- the record is there, and it was not among the earlier ones
  rw [hplan.effects] at hcut
  obtain ⟨-, last, hlast, hactive⟩ := cut_active hcut hsome
  rw [active_last hactive] at hheld
  obtain ⟨r₁, r₂, -, hr₂, rfl⟩ := holds_append.1 hheld
  obtain ⟨r, hr⟩ : ∃ r : List (Mapping F), Holds [last] r := by
    rcases hlast with rfl | hlast
    · exact ⟨[], holds_empty⟩
    · have hbefore := hvalid.holds
      rw [← hconfig, active_last hlast] at hbefore
      obtain ⟨-, r, -, hr, -⟩ := holds_append.1 hbefore
      exact ⟨r, hr⟩
  have hline := holds_line hplan.built.wf hplan.encoded hr
  rw [hwhole] at hr₂
  obtain rfl := hr₂.unique hline
  obtain ⟨gone, kept', hrecords, -, hkept'⟩ := hvalid.holds.drop j
  obtain rfl := hkept'.unique hkept
  exact hfresh st hst plan.entry (by simp [hrecords]) hplan.recordId

/-! ## Exactly when -/

/-- **A failed `record` is harmless exactly when it has written no byte of its line**, on every valid
    log whose last record lies within the tail window, with an instance that has counted as far or a last
    record that carries its number, and where the rotations of the failed call and of the next one still
    have a number of six digits. On any valid log, a call that has written something is not harmless. -/
theorem failed_record_harmless_iff {lg lg' : Logger} {dir dir' : Dir}
    {stamp : Except PyExc (Stamp F)} {input : RecordInput F} {done : List Effect}
    (hfailed : Failed H lg dir stamp input done lg' dir') {records : List (Mapping F)} {s : Scan}
    (hvalid : ValidLog H lg.config.fileName dir records s)
    (hfresh : ∀ st, stamp = .ok st → ∀ entry ∈ records,
      lookup (py "record_id") entry ≠ some (.str st.recordId)) {stamp' : Stamp F} {input' : RecordInput F}
    (hinput : validateRecordInput input' = .ok ()) :
    (TailReached (contents lg.config.fileName dir).reverse → InStep lg records s →
      (Renamed done → Numbers lg dir) → (Rotates H lg' dir' (.ok stamp') input' → Numbers lg' dir') →
      (Harmless H lg dir stamp input lg' dir' stamp' input' ↔ written done = [])) ∧
    (Harmless H lg dir stamp input lg' dir' stamp' input' → written done = []) := by
  refine ⟨fun hseen hstep hrenamed hnumbers => ⟨failed_written hfailed hvalid hfresh, fun hquiet => ?_⟩,
    failed_written hfailed hvalid hfresh⟩
  exact failed_quiet hfailed hquiet hvalid hstep hseen hrenamed hinput hnumbers

/-- A log of one record, as the first instance of `sampleCalls` writes it. -/
def sampleSystem : System SampleFloat :=
  System.run sha256Digest {} [.reopen sampleConfig sampleEnv, .record 0 (.ok sampleStamp) sampleInput]

def nextStamp : Stamp SampleFloat where
  timestamp := .zero
  timestampUtc := py "1970-01-01T00:00:00+00:00"
  recordId := py "00000000000040008000000000000001"

def laterStamp : Stamp SampleFloat where
  timestamp := .zero
  timestampUtc := py "1970-01-01T00:00:00+00:00"
  recordId := py "00000000000040008000000000000002"

theorem sampleSystem_intact : Intact sha256Digest (py "audit.jsonl") sampleSystem := by
  refine (intact_start sha256Digest (py "audit.jsonl")).run _ (fun call hcall => ?_) ?_
  · rcases List.mem_cons.1 hcall with rfl | hcall
    · exact ⟨rfl, by decide, by decide⟩
    · rw [List.mem_singleton.1 hcall]
      exact True.intro
  · exact (rotations_le ..).trans (by decide)

/-- What the calls below start from: an instance on a valid log of one record, whose next record can
    be built. -/
theorem sampleSystem_facts : ∃ lg lg' plan, lg ∈ sampleSystem.loggers ∧
    prepare sha256Digest lg sampleSystem.dir (.ok nextStamp) sampleInput = (lg', .ok plan) ∧
    ∃ (records : List (Mapping SampleFloat)) (s : Scan),
      ValidLog sha256Digest lg.config.fileName sampleSystem.dir records s ∧
      records.length = 1 ∧ InStep lg records s ∧
      ∀ entry ∈ records, lookup (py "record_id") entry ≠ some (.str nextStamp.recordId) := by
  obtain ⟨hplans, hids⟩ : (sampleSystem.loggers.map fun lg => (prepare sha256Digest lg
        sampleSystem.dir (.ok nextStamp) sampleInput).2.toOption.isSome) = [true] ∧
      (sampleSystem.history.map fun entry =>
        (lookup (py "record_id") entry).map pyStr) = [some sampleStamp.recordId] := by
    decide +kernel
  have hne : sampleStamp.recordId ≠ nextStamp.recordId := by decide
  have hintact := sampleSystem_intact
  generalize sampleSystem = sys at hplans hids hintact ⊢
  obtain ⟨lg, hlg, hplan⟩ := List.map_eq_singleton_iff.1 hplans
  have hmem : lg ∈ sys.loggers := by simp [hlg]
  obtain ⟨entry, hentry, hid⟩ := List.map_eq_singleton_iff.1 hids
  cases hprepare : prepare sha256Digest lg sys.dir (.ok nextStamp) sampleInput with
  | mk lg' result =>
      cases result with
      | error x => simp [hprepare, Except.toOption] at hplan
      | ok plan =>
          obtain ⟨gone, kept, s, hhistory, hkept, hvalid, hnewest⟩ := hintact.log
          rw [← (hintact.configs lg hmem).1] at hvalid
          have hone : gone = [] ∧ kept = [entry] := by
            rw [hentry] at hhistory hkept
            have hne' := hkept (by simp)
            rcases List.cons_eq_append_iff.1 hhistory with ⟨rfl, rfl⟩ | ⟨gone', rfl, hnil⟩
            · exact ⟨rfl, rfl⟩
            · exact absurd (List.append_eq_nil_iff.1 hnil.symm).2 hne'
          refine ⟨lg, lg', plan, hmem, hprepare, kept, s, hvalid, by simp [hone.2], .inr ?_, ?_⟩
          · rw [hhistory] at hnewest
            exact hnewest.numbered
          · intro e he heq
            rw [hone.2, List.mem_singleton] at he
            rw [he] at heq
            rw [heq] at hid
            simp only [Option.map_some, pyStr, Option.some.injEq] at hid
            exact hne hid.symm

example : sampleSystem.rotations = 0 := by decide +kernel

/-- The call renames the active segment, and fails before it has written anything. -/
theorem failed_record_before_writing :
    ∃ lg lg' done dir', lg ∈ sampleSystem.loggers ∧
      Failed sha256Digest lg sampleSystem.dir (.ok nextStamp) sampleInput done lg' dir' ∧ Renamed done ∧
      Harmless sha256Digest lg sampleSystem.dir (.ok nextStamp) sampleInput lg' dir' laterStamp
        sampleInput := by
  obtain ⟨lg, lg', plan, hmem, hprepare, records, s, hvalid, -, hstep, hfresh⟩ := sampleSystem_facts
  have hfull : sampleSystem.loggers.all (fun lg => (prepare sha256Digest lg sampleSystem.dir
      (.ok nextStamp) sampleInput).2.toOption.all fun plan =>
        needsRotation lg.config sampleSystem.dir plan.line) = true := by decide +kernel
  have hrot : sampleSystem.rotations = 0 := by decide +kernel
  have hintact := sampleSystem_intact
  generalize sampleSystem = sys at hmem hprepare hvalid hfull hrot hintact ⊢
  have hname := (hintact.configs lg hmem).1
  have hneeds : needsRotation lg.config sys.dir plan.line = true := by
    have hlg := List.all_eq_true.1 hfull lg hmem
    rwa [hprepare] at hlg
  obtain ⟨_, _, _, -, -, hlg', hplan⟩ := prepare_ok hprepare
  have hconfig : lg'.config = lg.config := by rw [hlg']
  have hnumbers : nextRotationIndex lg.config.fileName sys.dir + 1 ≤ 999999 := by
    rw [hname]
    have := hintact.numbers
    omega
  -- the call stops after the first effect of the rotation
  obtain ⟨data, hactive, hdata⟩ := needsRotation_active hneeds
  have hne : ¬ (sys.dir.files.get? lg.config.fileName).getD [] = [] := by simpa [hactive] using hdata
  obtain ⟨src, dst, rest, heffects⟩ :
      ∃ src dst rest, appendEffects lg.config sys.dir plan.line = Effect.replace src dst :: rest := by
    rw [appendEffects, if_pos hneeds, rotateEffects, if_neg hne]
    exact ⟨_, _, _, rfl⟩
  have hcut : Cut (appendEffects lg.config sys.dir plan.line) [.replace src dst] := by
    rw [heffects]
    exact .step _ (.stop _)
  have hfailed : Failed sha256Digest lg sys.dir (.ok nextStamp) sampleInput [.replace src dst] lg'
      (applyAll sys.dir [.replace src dst]) := by
    refine .stopped hprepare ?_
    rwa [hplan.effects, hconfig]
  obtain ⟨-, -, hindex, -⟩ := cut_appendEffects (fun _ => by omega) hcut
  refine ⟨lg, lg', _, _, hmem, hfailed, ⟨src, dst, List.mem_singleton_self _⟩, ?_⟩
  refine ((failed_record_harmless_iff hfailed hvalid ?_ (by decide)).1 ?_ hstep (fun _ => ?_) fun _ => ?_).2 rfl
  · rintro st hst entry hentry
    cases hst
    exact hfresh entry hentry
  · rw [hname]
    exact hintact.reached
  · exact (Nat.le_succ _).trans hnumbers
  · rw [Numbers, hconfig]
    exact hindex.trans hnumbers

/-- An initial part of an append that ends within the line. -/
theorem cut_short {quiet rest : List Effect} {name : PyStr} {w line : Bytes} (h : w <+: line) :
    Cut (quiet ++ .append name line :: rest) (quiet ++ [.append name w]) := by
  obtain ⟨tail, rfl⟩ := h
  induction quiet with
  | nil => exact .short name w tail rest
  | cons e quiet ih => exact .step e ih

/-- An append that stops after the first byte of its line. -/
theorem PlanFacts.cut_first_byte {lg : Logger} {dir : Dir} {stamp : Stamp F} {input : RecordInput F}
    {plan : Plan F} (hplan : PlanFacts H lg dir stamp input plan) :
    ∃ done b, Cut plan.effects done ∧ written done = [b] ∧ [b] ≠ plan.line := by
  obtain ⟨text, body, -, -, hline, -, hhead⟩ := encodeLine_eq hplan.encoded
  obtain ⟨b, rest, rfl⟩ : ∃ b rest, body = b :: rest := by
    cases body with
    | nil => exact absurd hhead (by simp)
    | cons b rest => exact ⟨b, rest, rfl⟩
  set quiet := (if needsRotation lg.config dir plan.line then rotateEffects lg.config dir else []) ++
    [.create lg.config.fileName] with hset
  have heffects : plan.effects = quiet ++ [.append lg.config.fileName plan.line] := by
    rw [hplan.effects, appendEffects, hset, List.append_assoc]
    rfl
  have hquiet : ∀ name data, Effect.append name data ∉ quiet := by
    intro name data hmem
    rcases List.mem_append.1 hmem with hmem | hmem
    · split at hmem
      · exact rotateEffects_quiet name data hmem
      · exact absurd hmem (by simp)
    · exact absurd hmem (by simp)
  refine ⟨quiet ++ [.append lg.config.fileName [b]], b, ?_, written_quiet hquiet _, ?_⟩
  · rw [heffects]
    exact cut_short (by rw [hline]; exact List.prefix_append [b] (rest ++ [lf]))
  · rw [hline]
    simp

/-- The call fails after one byte: the log is invalid. -/
theorem failed_record_leaves_fragment :
    ∃ lg lg' done dir', lg ∈ sampleSystem.loggers ∧
      Failed sha256Digest lg sampleSystem.dir (.ok nextStamp) sampleInput done lg' dir' ∧
      (written done).length = 1 ∧
      (∃ (records : List (Mapping SampleFloat)) (s : Scan),
        ValidLog sha256Digest lg.config.fileName sampleSystem.dir records s ∧ records.length = 1 ∧
        InStep lg records s) ∧
      (∀ r, verify SampleFloat sha256Digest lg.config.fileName dir' false none = .ok r →
        r.valid = false) ∧
      ¬ Harmless sha256Digest lg sampleSystem.dir (.ok nextStamp) sampleInput lg' dir' laterStamp
        sampleInput := by
  obtain ⟨lg, lg', plan, hmem, hprepare, records, s, hvalid, hlen, hstep, hfresh⟩ :=
    sampleSystem_facts
  generalize sampleSystem = sys at hmem hprepare hvalid ⊢
  obtain ⟨hash, n, st, -, -, hlg', hplan⟩ := prepare_ok hprepare
  have hconfig : lg'.config = lg.config := by rw [hlg']
  obtain ⟨done, b, hcut, hwritten, hpart⟩ := hplan.cut_first_byte
  rw [← hwritten] at hpart
  have hfailed := Failed.stopped hprepare hcut
  refine ⟨lg, lg', _, _, hmem, hfailed, by simp [hwritten], ⟨records, s, hvalid, hlen, hstep⟩, ?_, ?_⟩
  · intro r hr
    by_contra htrue
    obtain ⟨records', s', hvalid', -⟩ := verify_iff.1 ⟨hr, by simpa using htrue⟩
    have hheld := hvalid'.holds
    rw [← hconfig] at hheld
    exact fragment_not_held hplan hcut (by simp [hwritten]) hpart records' hheld
  · intro hharmless
    have hnil := failed_written hfailed hvalid (by
      rintro st' hst' entry hentry
      cases hst'
      exact hfresh entry hentry) hharmless
    rw [hwritten] at hnil
    exact absurd hnil (by simp)

end Elyra.Audit
