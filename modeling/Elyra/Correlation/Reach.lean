import Elyra.Correlation.Order

set_option autoImplicit false
set_option linter.unusedSectionVars false

/-! # What a runtime-only process can reach

`validate` compares `quarantine_min` with the maxima of all five rules. A process without a fanotify
record has no path, so the mismatch rule never applies to it; and the child rule is applied when the
state is created, so once at most, and only to a process whose parent has a state. This file computes
the highest score such a process reaches, and with it which accepted policies let it be
quarantined. -/

namespace Elyra.Correlation

open Elyra.Python Elyra.Counting

variable {T F : Type} [Zero T] [Min T] [Sub T] [LE T] [DecidableLE T] [LT T] [DecidableLT T]
variable [FloatNum F]
variable {env : Env T} {p : AcceptedPolicy T}

/-! ## The bound on one state -/

/-- A state no fanotify record was bound to, which the child rule has scored `b` times at most. -/
structure RuntimeOnly (p : AcceptedPolicy T) (b : Nat) (s : ExecutionState T F) : Prop where
  status : s.status ≠ .deniedPreExecution
  path : s.executablePath = none
  preScore : s.preExecutionScore = 0
  offset_eq : offset p s = 0
  mismatch : s.occurrences .executableIdentifierMismatch = 0
  child : s.occurrences .childProcessExec ≤ b
  capped : ∀ r, s.occurrences r ≤ cap p r
  action : ∃ m ≤ combinedOf s.preExecutionScore s.runtimeIndicators,
    s.recommendedAction = scoreAction p m

/-- The score that the three key rules and `b` child execs come to. -/
def ceiling (p : AcceptedPolicy T) (b : Nat) : Int :=
  (keyRules.map fun r => (p.spec r).maximumContribution).sum +
    (p.spec .childProcessExec).weight * b

theorem RuntimeOnly.weight_le {b : Nat} {s : ExecutionState T F} (h : RuntimeOnly p b s) :
    indicatorWeight s ≤ ceiling p b := by
  have hoffset := h.offset_eq
  have hrule : ∀ r, (p.spec r).weight * s.occurrences r ≤ (p.spec r).maximumContribution := by
    intro r
    have hcapped := h.capped r
    obtain ⟨-, hweight, hpositive⟩ := p.spec_facts r
    refine mul_le_mul_of_nonneg_left ?_ hweight.le
    unfold cap at hcapped
    omega
  have hchild : (p.spec .childProcessExec).weight * s.occurrences .childProcessExec ≤
      (p.spec .childProcessExec).weight * b :=
    mul_le_mul_of_nonneg_left (by exact_mod_cast h.child) (p.spec_facts _).2.1.le
  have hwrite := hrule .distinctFileWrite
  have hrename := hrule .fileRename
  have hconnect := hrule .outboundConnection
  unfold offset at hoffset
  simp only [earned, Rule.all, ceiling, keyRules, List.map_cons, List.map_nil, List.sum_cons,
    List.sum_nil, h.mismatch] at hoffset ⊢
  push_cast at hoffset
  linarith

/-- A quarantine needs the threshold below the bound. -/
theorem RuntimeOnly.quarantine_le {b : Nat} {s : ExecutionState T F} (h : RuntimeOnly p b s)
    (hquarantine : s.recommendedAction = .quarantine) :
    p.threshold .quarantineMin ≤ ceiling p b := by
  obtain ⟨m, hm, haction⟩ := h.action
  have hscore : p.threshold .quarantineMin ≤ m := by
    rw [hquarantine, scoreAction] at haction
    by_contra hlt
    rw [if_neg hlt] at haction
    split_ifs at haction
  have hweight := h.weight_le
  rw [h.preScore, combinedOf] at hm
  unfold indicatorWeight at hweight
  omega

theorem RuntimeOnly.of_fields {b : Nat} {s s' : ExecutionState T F} (h : RuntimeOnly p b s)
    (hstatus : s'.status ≠ .deniedPreExecution) (hpath : s'.executablePath = s.executablePath)
    (hpre : s'.preExecutionScore = s.preExecutionScore)
    (hind : s'.runtimeIndicators = s.runtimeIndicators)
    (hocc : s'.ruleOccurrences = s.ruleOccurrences)
    (haction : s'.recommendedAction = s.recommendedAction) : RuntimeOnly p b s' := by
  have hcount := occurrences_congr hocc
  refine ⟨hstatus, hpath.trans h.path, hpre.trans h.preScore, ?_, ?_, ?_, ?_, ?_⟩
  · rw [offset, indicatorWeight, hind, hcount]
    exact h.offset_eq
  · rw [hcount]
    exact h.mismatch
  · rw [hcount]
    exact h.child
  · rw [hcount]
    exact h.capped
  · rw [hpre, hind, haction]
    exact h.action

theorem recalculate_runtimeOnly (env : Env T) (reason : PyStr) {b : Nat} {s : ExecutionState T F}
    (h : RuntimeOnly p b s) (reads : Nat) :
    RuntimeOnly p b (recalculate env p reason s reads).1 := by
  obtain ⟨m, hm, haction⟩ := h.action
  have hsettled := recalculate_settled env p reason reads h.status haction hm
  have hsame : SameEvidence s (recalculate env p reason s reads).1 := recalculate_same ..
  have hcount := occurrences_congr hsame.occurrences
  refine ⟨hsettled.status, hsame.path.trans h.path, hsame.preScore.trans h.preScore, ?_, ?_, ?_,
    ?_, _, hsettled.combined.le, hsettled.action⟩
  · rw [offset, indicatorWeight, hsame.indicators, hcount]
    exact h.offset_eq
  · rw [hcount]
    exact h.mismatch
  · rw [hcount]
    exact h.child
  · rw [hcount]
    exact h.capped

/-- The child rule needs room below `b`; the mismatch rule is not applied at all. -/
theorem applyRule_runtimeOnly (env : Env T) {r : Rule} (evidence : Json F)
    (hr : r ≠ .executableIdentifierMismatch) {b : Nat} {s : ExecutionState T F}
    (h : RuntimeOnly p b s) (hchild : r = .childProcessExec → s.occurrences r + 1 ≤ b)
    (reads : Nat) : RuntimeOnly p b (applyRule env p r evidence s reads).1 := by
  unfold applyRule
  dsimp only
  split
  · exact h
  · next hcap =>
    refine recalculate_runtimeOnly env r.name ?_ reads
    have hget : ∀ r', (((s.ruleOccurrences.set r (s.occurrences r + 1)).get? r').getD 0) =
        if r' = r then s.occurrences r + 1 else s.occurrences r' := by
      intro r'
      by_cases hr' : r' = r
      · rw [if_pos hr', hr', Dict.get?_set_self, Option.getD_some]
      · rw [if_neg hr', Dict.get?_set_ne _ hr']
        rfl
    have hweight := (p.spec_facts r).2.1
    have hoffset := h.offset_eq
    obtain ⟨m, hm, haction⟩ := h.action
    refine ⟨h.status, h.path, h.preScore, ?_, ?_, ?_, fun r' => ?_, m, ?_, haction⟩
    · have hcount : (fun r' => (((s.ruleOccurrences.set r (s.occurrences r + 1)).get? r').getD 0)) =
          Function.update s.occurrences r (s.occurrences r + 1) := by
        funext r'
        rw [hget, Function.update_apply]
      have hearned := earned_update p s.occurrences r
      rw [← hcount] at hearned
      unfold offset at hoffset ⊢
      have hlast : earned p (ExecutionState.occurrences { s with
          ruleOccurrences := s.ruleOccurrences.set r (s.occurrences r + 1)
          runtimeIndicators := s.runtimeIndicators ++ [⟨r, (p.spec r).weight, s.occurrences r + 1,
            (p.spec r).maxOccurrences, evidence, (p.spec r).description⟩] }) =
          earned p s.occurrences + (p.spec r).weight := hearned
      rw [hlast]
      simp only [indicatorWeight, List.map_append, List.sum_append, List.map_cons, List.map_nil,
        List.sum_cons, List.sum_nil] at hoffset ⊢
      omega
    · show _ = 0
      rw [ExecutionState.occurrences, hget, if_neg (Ne.symm hr)]
      exact h.mismatch
    · rw [ExecutionState.occurrences, hget]
      split
      · next heq => exact hchild heq.symm
      · exact h.child
    · have hold := h.capped r'
      rw [ExecutionState.occurrences, hget]
      split
      · next heq =>
        subst heq
        unfold cap
        omega
      · exact hold
    · refine hm.trans ?_
      simp only [combinedOf, List.map_append, List.sum_append, List.map_cons, List.map_nil,
        List.sum_cons, List.sum_nil]
      omega

theorem observed_runtimeOnly (env : Env T) {event : Mapping F} {b : Nat} {s : ExecutionState T F}
    (h : RuntimeOnly p b s) (reads : Nat) : RuntimeOnly p b (observed env p event s reads).1 := by
  have hkey : ∀ (r : Rule) (key : PyStr) (evidence : Json F) (seen : List PyStr)
      (add : ExecutionState T F → List PyStr → ExecutionState T F),
      r ≠ .executableIdentifierMismatch → r ≠ .childProcessExec →
      (∀ l, RuntimeOnly p b (add s l)) →
      RuntimeOnly p b (observeKey env p r key evidence seen add s reads).1 := by
    intro r key evidence seen add hr hr' hadd
    unfold observeKey
    split
    · exact h
    · exact applyRule_runtimeOnly env evidence hr (hadd _) (fun heq => absurd heq hr') reads
  unfold observed
  split
  · unfold observeWrite
    split
    · exact h
    · exact h
    · exact hkey _ _ _ _ _ (by decide) (by decide)
        fun _ => h.of_fields h.status rfl rfl rfl rfl rfl
  · exact hkey _ _ _ _ _ (by decide) (by decide) fun _ => h.of_fields h.status rfl rfl rfl rfl rfl
  · exact hkey _ _ _ _ _ (by decide) (by decide) fun _ => h.of_fields h.status rfl rfl rfl rfl rfl
  · exact h

/-- Without a path there is nothing to compare an identifier with. -/
theorem observeExec_runtimeOnly (env : Env T) (event : Mapping F) (timestamp : Int) {b : Nat}
    {s : ExecutionState T F} (h : RuntimeOnly p b s) (reads : Nat) :
    RuntimeOnly p b (observeExec env p event timestamp s reads).1 := by
  have hmark : RuntimeOnly p b (markExec event timestamp s) :=
    h.of_fields (by simp [markExec]) rfl rfl rfl rfl rfl
  have hsame : lexicallySame (markExec event timestamp s).executablePath
      (markExec event timestamp s).executableIdentifier = true := by
    rw [hmark.path]
    rfl
  unfold observeExec
  dsimp only
  rw [if_pos hsame]
  exact hmark

theorem touch_runtimeOnly (event : Mapping F) (now : T) {b : Nat} {s : ExecutionState T F}
    (h : RuntimeOnly p b s) : RuntimeOnly p b (touch event now s).2 := by
  unfold touch
  dsimp only
  split
  · exact h.of_fields h.status rfl rfl rfl rfl rfl
  · split <;> exact h.of_fields h.status rfl rfl rfl rfl rfl

theorem observeExit_runtimeOnly (event : Mapping F) (now : T) {b : Nat} {s : ExecutionState T F}
    (h : RuntimeOnly p b s) : RuntimeOnly p b (observeExit event now s).2 := by
  unfold observeExit
  dsimp only
  split <;> exact h.of_fields (by simp) rfl rfl rfl rfl rfl

theorem newState_runtimeOnly (env : Env T) (p : AcceptedPolicy T) (b : Nat) (pid ppid uid : Int)
    (parent : Option PyStr) (e : Engine T F) :
    RuntimeOnly p b (newState env p (runtimeNewState pid ppid uid parent) e).1 := by
  refine recalculate_runtimeOnly env _ ⟨by simp [NewState.build, runtimeNewState], rfl, rfl, ?_,
    rfl, Nat.zero_le _, fun r => Nat.zero_le _, 0, ?_, ?_⟩ _
  · simp [offset, indicatorWeight, earned, NewState.build, ExecutionState.occurrences, Rule.all]
  · simp [combinedOf, NewState.build, runtimeNewState]
  · obtain ⟨h0, h1, h2, -⟩ := p.threshold_facts
    unfold scoreAction
    rw [if_neg (by omega), if_neg (by omega), if_neg (by omega)]
    rfl

/-! ## The bound on runs -/

/-- No other process has a state. -/
def Lone (pid : Int) (e : Engine T F) : Prop := ∀ pid', pid' ≠ pid → e.states.get? pid' = none

/-- The state of `pid` is runtime-only, and where the child rule is to be kept out, there is no
    process to be its parent. -/
structure Confined (p : AcceptedPolicy T) (b : Nat) (pid : Int) (e : Engine T F) : Prop where
  keyed : Keyed e
  only : ∀ s, e.states.get? pid = some s → RuntimeOnly p b s
  lone : 1 ≤ b ∨ Lone pid e

theorem Confined.of_frames {b : Nat} {pid : Int} {e e' : Engine T F} (h : Confined p b pid e)
    (hframe : ∀ pid', Frame pid' e e') : Confined p b pid e' := by
  refine ⟨(hframe pid).keyed, fun s hs => ?_, h.lone.imp_right fun hlone pid' hne => ?_⟩
  · rcases (hframe pid).entry with hsame | hnone
    · rw [hsame] at hs
      exact h.only s hs
    · rw [hnone] at hs
      cases hs
  · exact (hframe pid').none (hlone pid' hne)

theorem Confined.put {b : Nat} {pid : Int} {e : Engine T F} (h : Confined p b pid e)
    {s : ExecutionState T F} (hs : RuntimeOnly p b s) (hpid : s.pid = pid) :
    Confined p b pid (e.put s) := by
  refine ⟨set_keyed h.keyed s, fun s' hs' => ?_, h.lone.imp_right fun hlone pid' hne => ?_⟩
  · rw [Engine.put, hpid, Dict.get?_set_self] at hs'
    cases hs'
    exact hs
  · rw [Engine.put, hpid, Dict.get?_set_ne _ hne]
    exact hlone pid' hne

theorem Confined.clock {b : Nat} {pid : Int} {e : Engine T F} (h : Confined p b pid e) (n : Nat) :
    Confined p b pid { e with clockReads := n } := ⟨h.keyed, h.only, h.lone⟩

theorem newState_confined {b : Nat} {pid : Int} {a : NewState F} (ha : a.pid = pid)
    {e : Engine T F} (h : Confined p b pid e) (hs : RuntimeOnly p b (newState env p a e).1) :
    Confined p b pid (newState env p a e).2 := by
  have hevict : Confined p b pid (evict p e) := h.of_frames fun pid' => evict_frame p pid' h.keyed
  have hput := (hevict.put hs ((newState_pid env p a e).trans ha)).clock
    (newState env p a e).2.clockReads
  refine ⟨?_, ?_, ?_⟩
  · have hkeyed := hput.keyed
    unfold Keyed Engine.put at hkeyed
    rw [newState_pid] at hkeyed
    exact hkeyed
  · have honly := hput.only
    unfold Engine.put at honly
    rw [newState_pid] at honly
    exact honly
  · refine h.lone.imp_right fun hlone pid' hne => ?_
    exact (newState_frame h.keyed (ha.trans_ne (Ne.symm hne))).none (hlone pid' hne)

theorem createRuntimeState_confined (event : Mapping F) {b : Nat} {pid : Int} (ppid uid : Int)
    {parent : Option PyStr} (hparent : parent = none ∨ 1 ≤ b) {e : Engine T F}
    (h : Confined p b pid e) :
    Confined p b pid (createRuntimeState env p event pid ppid uid parent e).2 ∧
      RuntimeOnly p b (createRuntimeState env p event pid ppid uid parent e).1 := by
  have hs := newState_runtimeOnly env p b pid ppid uid parent e
  have hnew : Confined p b pid (newState env p (runtimeNewState pid ppid uid parent) e).2 :=
    newState_confined rfl h hs
  unfold createRuntimeState
  cases parent with
  | none => exact ⟨hnew, hs⟩
  | some id =>
      have hroom : 1 ≤ b := hparent.resolve_left nofun
      dsimp only
      split
      · have hzero := (newState_unscored env p (runtimeNewState (F := F) pid ppid uid (some id))
          e).occurrences .childProcessExec
        have hchild := applyRule_runtimeOnly env (childEvidence ppid id) (r := .childProcessExec)
          (by decide) hs (fun _ => by rw [hzero]; exact hroom)
          (newState env p (runtimeNewState pid ppid uid (some id)) e).2.clockReads
        refine ⟨(hnew.put hchild ?_).clock _, hchild⟩
        exact (applyRule_advance ..).grows.pid.trans (newState_pid ..)
      · exact ⟨hnew, hs⟩

/-- A process that is alone has no parent with a state. -/
theorem parentOf_of_lone (env : Env T) (p : AcceptedPolicy T) {pid : Int} {e : Engine T F}
    (hlone : Lone pid e) (hnone : e.states.get? pid = none) (ppid : Int) :
    (parentOf env p ppid e).1 = none := by
  have hparent : e.states.get? ppid = none := by
    by_cases hp : ppid = pid
    · rw [hp]
      exact hnone
    · exact hlone ppid hp
  unfold parentOf
  rw [hparent]

theorem runtimeState_confined (env : Env T) {event : Mapping F} {b : Nat} {pid : Int}
    (hpid : pidOf event = .ok pid) {e : Engine T F} (h : Confined p b pid e) :
    Confined p b pid (runtimeState env p event e).2 ∧
      ∀ s, (runtimeState env p event e).1 = .ok (some s) → RuntimeOnly p b s ∧ s.pid = pid := by
  unfold runtimeState
  rw [hpid]
  dsimp only
  split
  · exact ⟨h, fun s hs => absurd hs (by simp)⟩
  · split
    · next s hs =>
      refine ⟨h, fun s' hs' => ?_⟩
      cases hs'
      exact ⟨h.only s hs, h.keyed pid s hs⟩
    · next hnone =>
      split
      · exact ⟨h, fun s hs => absurd hs (by simp)⟩
      · next ppid _ =>
        have hparent : (parentOf env p ppid e).1 = none ∨ 1 ≤ b := by
          rcases h.lone with hroom | hlone
          · exact .inr hroom
          · exact .inl (parentOf_of_lone env p hlone hnone ppid)
        have hafter : Confined p b pid (parentOf env p ppid e).2 :=
          h.of_frames fun pid' => parentOf_frame env p pid' ppid h.keyed
        split
        · exact ⟨hafter, fun s hs => absurd hs (by simp)⟩
        · next uid _ =>
          obtain ⟨hconfined, hs⟩ :=
            createRuntimeState_confined event ppid uid hparent hafter
          refine ⟨hconfined, fun s' hs' => ?_⟩
          cases hs'
          exact ⟨hs, createRuntimeState_pid ..⟩

theorem finishIngest_confined (env : Env T) (event : Mapping F) {b : Nat} {pid : Int}
    {e : Engine T F} (h : Confined p b pid e) {s : ExecutionState T F} (hs : RuntimeOnly p b s)
    (hpid : s.pid = pid) (reads : Nat) :
    Confined p b pid (finishIngest env p event s reads e).2 :=
  (h.put (recalculate_runtimeOnly env _ hs reads)
    ((recalculate_grows ..).pid.trans hpid)).clock _

theorem replaceGeneration_confined (env : Env T) {event : Mapping F} {b : Nat} {pid : Int}
    (hpid : pidOf event = .ok pid) (timestamp : Int) {e : Engine T F} (h : Confined p b pid e)
    {s : ExecutionState T F} (hs : RuntimeOnly p b s) (hs' : s.pid = pid) :
    Confined p b pid (replaceGeneration env p event timestamp s e).2 ∧
      ∀ s', (replaceGeneration env p event timestamp s e).1 = .ok (some s') →
        RuntimeOnly p b s' ∧ s'.pid = pid := by
  have hkept : ∀ s', (.ok (some s) : Except PyExc (Option (ExecutionState T F))) = .ok (some s') →
      RuntimeOnly p b s' ∧ s'.pid = pid := by
    intro s' heq
    cases heq
    exact ⟨hs, hs'⟩
  unfold replaceGeneration
  split
  · exact ⟨h, hkept⟩
  · split
    · exact runtimeState_confined env hpid (h.of_frames fun pid' => archive_frame pid' h.keyed _ _)
    · exact ⟨h, hkept⟩

theorem ingestKind_confined (env : Env T) {event : Mapping F} {b : Nat} {pid : Int}
    (hpid : pidOf event = .ok pid) (now : T) {e : Engine T F} (h : Confined p b pid e)
    {s : ExecutionState T F} (hs : RuntimeOnly p b s) (hs' : s.pid = pid) :
    Confined p b pid (ingestKind env p event now s e).2 := by
  by_cases hkey : KeyEvent event
  · rw [ingestKind_observed env p hkey]
    have hobserved := (observed_noted env p hkey s e.clockReads).1.pid
    exact finishIngest_confined env event h (observed_runtimeOnly env hs _) (hobserved.trans hs') _
  · unfold ingestKind
    split
    · split
      · exact h
      · next timestamp _ =>
        obtain ⟨hconfined, hstate⟩ := replaceGeneration_confined env hpid timestamp h hs hs'
        split
        · next heq =>
          rw [heq] at hconfined
          exact hconfined
        · next heq =>
          rw [heq] at hconfined
          exact hconfined
        · next s₁ e₁ heq =>
          rw [heq] at hconfined hstate
          obtain ⟨hs₁, hpid₁⟩ := hstate s₁ rfl
          refine finishIngest_confined env event hconfined
            (observeExec_runtimeOnly env event timestamp hs₁ _) ?_ _
          exact (observeExec_advance ..).grows.pid.trans hpid₁
    · next hkind => exact absurd (.inl hkind) hkey
    · next hkind => exact absurd (.inr (.inl hkind)) hkey
    · next hkind => exact absurd (.inr (.inr hkind)) hkey
    · have hexit := observeExit_runtimeOnly event now hs
      have hexitPid : (observeExit event now s).2.pid = pid :=
        (observeExit_advance (p := p) event now s).grows.pid.trans hs'
      split
      · next heq =>
        rw [heq] at hexit hexitPid
        exact h.put hexit hexitPid
      · next heq =>
        rw [heq] at hexit hexitPid
        exact finishIngest_confined env event h hexit hexitPid _
    · exact finishIngest_confined env event h hs hs' _

/-- One event of the process. -/
theorem ingest_confined (env : Env T) {event : Mapping F} {b : Nat} {pid : Int}
    (hpid : pidOf event = .ok pid) {e : Engine T F} (h : Confined p b pid e) :
    Confined p b pid (ingestRuntimeEvent env p event e).2 := by
  have hexpired : Confined p b pid (expire env p none e).2 :=
    h.of_frames fun pid' => expire_frame env p pid' none h.keyed
  obtain ⟨hconfined, hstate⟩ := runtimeState_confined env hpid hexpired
  unfold ingestRuntimeEvent
  dsimp only
  split
  · next heq =>
    rw [heq] at hconfined
    exact hconfined
  · next heq =>
    rw [heq] at hconfined
    exact hconfined
  · next s e₁ heq =>
    rw [heq] at hconfined hstate
    obtain ⟨hs, hs'⟩ := hstate s rfl
    have htouched := touch_runtimeOnly event (env.clock e₁.clockReads) hs
    have htouchedPid : (touch event (env.clock e₁.clockReads) s).2.pid = pid :=
      (touch_noted p event (env.clock e₁.clockReads) s).1.pid.trans hs'
    have hread : Confined p b pid e₁.readClock := hconfined.clock _
    split
    · next heq' =>
      rw [heq'] at htouched htouchedPid
      exact hread.put htouched htouchedPid
    · next heq' =>
      rw [heq'] at htouched htouchedPid
      exact ingestKind_confined env hpid _ (hread.put htouched htouchedPid) htouched htouchedPid

/-- The calls that bring no fanotify record of `pid`. -/
def NoRecord (pid : Int) : Call T F → Prop
  | .registerPreExecution record => pidOf record ≠ .ok pid
  | _ => True

/-- A call that brings no record, when the process may have a parent. -/
theorem perform_confined (env : Env T) {pid : Int} {c : Call T F} (hc : NoRecord pid c)
    {e : Engine T F} (h : Confined p 1 pid e) : Confined p 1 pid (perform env p c e).2 := by
  by_cases hother : OtherProcess pid c
  · have hframe := perform_frame env p hother h.keyed
    refine ⟨hframe.keyed, fun s hs => ?_, .inl le_rfl⟩
    rcases hframe.entry with hsame | hnone
    · rw [hsame] at hs
      exact h.only s hs
    · rw [hnone] at hs
      cases hs
  · cases c with
    | registerPreExecution record => exact absurd hc hother
    | ingestRuntimeEvent event => exact ingest_confined env (not_not.1 hother) h
    | expire now => exact absurd trivial hother
    | recordActionResult pid' id result =>
        have hsame : pid' = pid := not_not.1 hother
        subst hsame
        simp only [perform, recordActionResult]
        split
        · exact h
        · next s hs =>
          split
          · exact h
          · have hread : Confined p 1 pid' e.readClock := h.clock _
            exact hread.put ((h.only s hs).of_fields (h.only s hs).status rfl rfl rfl rfl rfl)
              (h.keyed pid' s hs)

theorem initial_confined (p : AcceptedPolicy T) (b : Nat) (pid : Int) :
    Confined p b pid ({} : Engine T F) :=
  ⟨fun pid s h => absurd h (by simp), fun s h => absurd h (by simp), .inr fun pid' _ => rfl⟩

/-- A run without a record of the process. -/
theorem runCalls_confined (env : Env T) {pid : Int} {calls : List (Call T F)}
    (hcalls : ∀ c ∈ calls, NoRecord pid c) {e : Engine T F} (h : Confined p 1 pid e) :
    Confined p 1 pid (runCalls env p calls e) := by
  induction calls generalizing e with
  | nil => exact h
  | cons c calls ih =>
      exact ih (fun c' hc' => hcalls c' (List.mem_cons_of_mem _ hc'))
        (perform_confined env (hcalls c (List.mem_cons_self ..)) h)

/-- The run of the events of one process. -/
def ingestAll (env : Env T) (p : AcceptedPolicy T) (events : List (Mapping F)) (e : Engine T F) :
    Engine T F :=
  runCalls env p (events.map .ingestRuntimeEvent) e

theorem ingestAll_confined (env : Env T) {b : Nat} {pid : Int} {events : List (Mapping F)}
    (hevents : ∀ event ∈ events, pidOf event = .ok pid) {e : Engine T F}
    (h : Confined p b pid e) : Confined p b pid (ingestAll env p events e) := by
  induction events generalizing e with
  | nil => exact h
  | cons event events ih =>
      exact ih (fun event' hevent' => hevents event' (List.mem_cons_of_mem _ hevent'))
        (ingest_confined env (hevents event (List.mem_cons_self ..)) h)

/-! ## The bound is reached -/

/-- The clock never ends a time to live. -/
def WithinTtl (env : Env T) (p : AcceptedPolicy T) : Prop :=
  ∀ i j, ¬ p.toPolicy.stateTtlSeconds < env.clock i - env.clock j

/-- An active state that was last seen at a reading of the clock. -/
structure Seen (env : Env T) (s : ExecutionState T F) : Prop where
  active : s.status = .active
  reading : ∃ k, s.lastSeenMonotonic = env.clock k

theorem Seen.expiry (h : WithinTtl env p) {s : ExecutionState T F} (hs : Seen env s) (n : Nat) :
    expiry p (env.clock n) s = none := by
  obtain ⟨k, hk⟩ := hs.reading
  unfold Correlation.expiry
  rw [hs.active, hk]
  exact if_neg (h n k)

theorem Seen.expire (h : WithinTtl env p) {s : ExecutionState T F} (hs : Seen env s) {pid : Int}
    {e : Engine T F} (hlive : e.states.get? pid = some s) :
    (expire env p none e).2.states.get? pid = some s := by
  rw [get?_expire, hlive]
  simp [Option.filter, hs.expiry h]

theorem applyRule_lastSeen (r : Rule) (evidence : Json F) (s : ExecutionState T F) (reads : Nat) :
    (applyRule env p r evidence s reads).1.lastSeenMonotonic = s.lastSeenMonotonic := by
  unfold applyRule
  dsimp only
  split
  · rfl
  · exact recalculate_lastSeen ..

theorem observed_lastSeen (env : Env T) (p : AcceptedPolicy T) (event : Mapping F)
    (s : ExecutionState T F) (reads : Nat) :
    (observed env p event s reads).1.lastSeenMonotonic = s.lastSeenMonotonic := by
  have hkey : ∀ (r : Rule) (key : PyStr) (evidence : Json F) (seen : List PyStr)
      (add : ExecutionState T F → List PyStr → ExecutionState T F),
      (∀ l, (add s l).lastSeenMonotonic = s.lastSeenMonotonic) →
      (observeKey env p r key evidence seen add s reads).1.lastSeenMonotonic =
        s.lastSeenMonotonic := by
    intro r key evidence seen add hadd
    unfold observeKey
    split
    · rfl
    · exact (applyRule_lastSeen ..).trans (hadd _)
  unfold observed
  split
  · unfold observeWrite
    split
    · rfl
    · rfl
    · exact hkey _ _ _ _ _ fun _ => rfl
  · exact hkey _ _ _ _ _ fun _ => rfl
  · exact hkey _ _ _ _ _ fun _ => rfl
  · rfl

/-- A state that has been seen stays live over an event that scores a key, and is seen again. -/
theorem ingest_seen (h : WithinTtl env p) {event : Mapping F} {pid : Int}
    (hpid : pidOf event = .ok pid) (hpos : 0 < pid) (hkind : KeyEvent event) {e : Engine T F}
    (hk : Keyed e) {s : ExecutionState T F} (hs : Seen env s)
    (hlive : e.states.get? pid = some s) :
    ∃ s', (ingestRuntimeEvent env p event e).2.states.get? pid = some s' ∧ Seen env s' ∧
      Absorbed p [event] s s' := by
  have hexpired := hs.expire h hlive
  obtain ⟨s', hs', habsorbed⟩ := ingest_absorbs env p hpid hpos hkind hk hexpired
  refine ⟨s', hs', ⟨habsorbed.noted.status.trans hs.active, ?_⟩, habsorbed⟩
  have hkey : s.pid = pid := hk pid s hlive
  have hrun : runtimeState env p event (expire env p none e).2 =
      (.ok (some s), (expire env p none e).2) := by
    simp only [runtimeState, hpid, if_neg (not_le.2 hpos), hexpired]
  simp only [ingestRuntimeEvent, hrun] at hs'
  generalize (expire env p none e).2 = e₁ at hs'
  have hlast := touch_lastSeen event (env.clock e₁.clockReads) s
  have htouchPid := (touch_noted p event (env.clock e₁.clockReads) s).1.pid.trans hkey
  refine ⟨e₁.clockReads, ?_⟩
  cases htouch : touch event (env.clock e₁.clockReads) s with
  | mk result s₁ =>
      rw [htouch] at hs' hlast htouchPid
      dsimp only at hs' hlast htouchPid
      cases result with
      | error x =>
          rw [← htouchPid] at hs'
          have hself := get?_put_self e₁.readClock s₁
          rw [hself] at hs'
          cases hs'
          exact hlast
      | ok u =>
          dsimp only at hs'
          rw [ingestKind_observed env p hkind] at hs'
          have hobserved := (observed_noted env p hkind s₁ (e₁.readClock.put s₁).clockReads).1.pid
          have hseen := observed_lastSeen env p event s₁ (e₁.readClock.put s₁).clockReads
          rw [← htouchPid, ← hobserved, finishIngest_live] at hs'
          cases hs'
          rw [recalculate_lastSeen, hseen, hlast]

/-- A list of such events. -/
theorem ingestAll_absorbs (h : WithinTtl env p) {pid : Int} (hpos : 0 < pid)
    {events : List (Mapping F)} (hevents : ∀ event ∈ events, pidOf event = .ok pid ∧ KeyEvent event)
    {e : Engine T F} (hk : Keyed e) {s : ExecutionState T F} (hs : Seen env s)
    (hlive : e.states.get? pid = some s) :
    ∃ s', (ingestAll env p events e).states.get? pid = some s' ∧ Absorbed p events s s' := by
  induction events generalizing e s with
  | nil => exact ⟨s, hlive, Absorbed.refl s⟩
  | cons event events ih =>
      obtain ⟨hpid, hkind⟩ := hevents event (List.mem_cons_self ..)
      obtain ⟨s₁, hlive₁, hs₁, habsorbed⟩ := ingest_seen h hpid hpos hkind hk hs hlive
      have hk₁ : Keyed (perform env p (.ingestRuntimeEvent event) e).2 :=
        runCalls_keyed env p [.ingestRuntimeEvent event] hk
      obtain ⟨s', hlive', habsorbed'⟩ :=
        ih (fun event' hevent' => hevents event' (List.mem_cons_of_mem _ hevent')) hk₁ hs₁ hlive₁
      exact ⟨s', hlive', habsorbed.trans habsorbed'⟩

/-! ### The state to start from -/

theorem KeyFresh.of_fields {s s' : ExecutionState T F} (h : KeyFresh s)
    (hocc : ∀ r ∈ keyRules, s'.occurrences r = s.occurrences r)
    (hfiles : s'.distinctFiles = s.distinctFiles)
    (hnames : s'.renameIdentifiers = s.renameIdentifiers)
    (hconnections : s'.outboundConnections = s.outboundConnections) : KeyFresh s' := by
  intro r hr
  obtain ⟨hcount, hseen⟩ := h r hr
  refine ⟨(hocc r hr).trans hcount, ?_⟩
  cases r with
  | distinctFileWrite => exact hfiles.trans hseen
  | fileRename => exact hnames.trans hseen
  | outboundConnection => exact hconnections.trans hseen
  | childProcessExec => rfl
  | executableIdentifierMismatch => rfl

theorem recalculate_keyFresh (reason : PyStr) {s : ExecutionState T F} (h : KeyFresh s)
    (reads : Nat) : KeyFresh (recalculate env p reason s reads).1 := by
  have hsame : SameEvidence s (recalculate env p reason s reads).1 := recalculate_same ..
  have hcount := occurrences_congr hsame.occurrences
  obtain ⟨ts, heq⟩ := recalculate_fst env p reason s reads
  refine h.of_fields (fun r _ => congrFun hcount r) ?_ ?_ ?_
  · rw [heq]
    rfl
  · rw [heq]
    rfl
  · rw [heq]
    rfl

theorem applyRule_keyFresh {r : Rule} (hr : r ∉ keyRules) (evidence : Json F)
    {s : ExecutionState T F} (h : KeyFresh s) (reads : Nat) :
    KeyFresh (applyRule env p r evidence s reads).1 := by
  unfold applyRule
  dsimp only
  split
  · exact h
  · refine recalculate_keyFresh r.name ?_ reads
    refine h.of_fields (fun r' hr' => ?_) rfl rfl rfl
    have hne : r' ≠ r := fun heq => hr (heq ▸ hr')
    rw [ExecutionState.occurrences, Dict.get?_set_ne _ hne]
    rfl

theorem createRuntimeState_keyFresh (env : Env T) (p : AcceptedPolicy T) (event : Mapping F)
    (pid ppid uid : Int) (parent : Option PyStr) (e : Engine T F) :
    KeyFresh (createRuntimeState env p event pid ppid uid parent e).1 := by
  have hnew := newState_unscored env p (runtimeNewState pid ppid uid parent) e
  have hfresh : KeyFresh (newState env p (runtimeNewState pid ppid uid parent) e).1 :=
    fun r _ => ⟨hnew.occurrences r, hnew.seen r⟩
  unfold createRuntimeState
  dsimp only
  split
  · exact hfresh
  · split
    · exact applyRule_keyFresh (by decide) _ hfresh _
    · exact hfresh

/-- An exec event that finds no state starts one, with a child exec if there is a parent. -/
theorem exec_starts {pid ppid uid timestamp : Int} {event : Mapping F}
    (he : ExecEvent pid ppid uid timestamp event) (hpos : 0 < pid) {e : Engine T F}
    (hk : Keyed e) (hnone : (expire env p none e).2.states.get? pid = none) :
    ∃ s, (ingestRuntimeEvent env p event e).2.states.get? pid = some s ∧ Seen env s ∧
      KeyFresh s ∧ indicatorWeight s =
        if (inheritedParent env p ppid e).isSome then (p.spec .childProcessExec).weight else 0 := by
  have hexp := expire_frame env p pid none hk
  have hparent := parentOf_frame env p pid ppid hexp.keyed
  obtain ⟨hcreated, hpath, hexec, -⟩ := createRuntimeState_spec env p he.kind_eq pid ppid uid
    (parentOf env p ppid (expire env p none e).2).1 hparent.keyed
  have hfresh := createRuntimeState_keyFresh env p event pid ppid uid
    (parentOf env p ppid (expire env p none e).2).1 (parentOf env p ppid (expire env p none e).2).2
  have hpid : (createRuntimeState env p event pid ppid uid
      (parentOf env p ppid (expire env p none e).2).1
      (parentOf env p ppid (expire env p none e).2).2).1.pid = pid := createRuntimeState_pid ..
  have hweight : indicatorWeight (createRuntimeState env p event pid ppid uid
      (parentOf env p ppid (expire env p none e).2).1
      (parentOf env p ppid (expire env p none e).2).2).1 =
      if (inheritedParent env p ppid e).isSome then (p.spec .childProcessExec).weight else 0 := by
    rw [indicatorWeight, hcreated.indicators, inheritedParent]
    cases (parentOf env p ppid (expire env p none e).2).1 with
    | none => rfl
    | some id => simp [childIndicators, firstIndicator]
  simp only [ingestRuntimeEvent, runtimeState, he.pid_eq, if_neg (not_le.2 hpos), hnone,
    he.ppid_eq, he.uid_eq]
  generalize createRuntimeState env p event pid ppid uid
    (parentOf env p ppid (expire env p none e).2).1
    (parentOf env p ppid (expire env p none e).2).2 = c at *
  obtain ⟨ppid', hppid⟩ := intOr_default he.ppid_eq c.1.ppid
  obtain ⟨uid', huid⟩ := intOr_default he.uid_eq c.1.uid
  simp only [touch, hppid, huid, ingestKind, he.kind_eq, he.timestamp_eq, replaceGeneration, hexec,
    observeExec, markExec, hpath, lexicallySame, if_true]
  generalize hmarked : ({ c.1 with
    lastSeenMonotonic := env.clock c.2.clockReads
    ppid := ppid'
    uid := uid'
    status := .active
    executablePath := none
    execTimestampNs := timestampOr timestamp none
    executableIdentifier := nonEmptyText event "executable_identifier" } :
      ExecutionState T F) = s
  have hspid : s.pid = pid := by
    rw [← hmarked]
    exact hpid
  have hsame : ∀ reads, SameEvidence s (recalculate env p (eventReason event) s reads).1 :=
    fun reads => recalculate_same ..
  refine ⟨_, by rw [← hspid]; exact finishIngest_live .., ⟨?_, c.2.clockReads, ?_⟩, ?_, ?_⟩
  · rw [(hsame _).status, ← hmarked]
  · rw [recalculate_lastSeen, ← hmarked]
  · have hcount : s.occurrences = c.1.occurrences := occurrences_congr (by rw [← hmarked])
    refine recalculate_keyFresh _ ?_ _
    refine hfresh.of_fields (fun r _ => congrFun hcount r) ?_ ?_ ?_
    · rw [← hmarked]
    · rw [← hmarked]
    · rw [← hmarked]
  · rw [indicatorWeight, (hsame _).indicators, ← hmarked]
    exact hweight

/-! ### The events that exhaust the rules -/

/-- Names that are all different, and not empty. -/
def nameOf (i : Nat) : PyStr := List.replicate (i + 1) 97

/-- The `i`-th event of `pid` for a key rule. -/
def keyEvent (pid : Int) (r : Rule) (i : Nat) : Mapping F :=
  match r with
  | .fileRename => [(py "event_type", .str (py "FILE_RENAME")), (py "pid", .int pid),
      (py "executable_identifier", .str (nameOf i))]
  | .outboundConnection => [(py "event_type", .str (py "NETWORK_CONNECT")), (py "pid", .int pid),
      (py "destination_address", .str (nameOf i))]
  | _ => [(py "event_type", .str (py "FILE_WRITE")), (py "pid", .int pid),
      (py "distinct_file_key", .str (nameOf i))]

/-- The key of that event. -/
def keyText (r : Rule) (i : Nat) : PyStr :=
  match r with
  | .outboundConnection => nameOf i ++ py ":" ++ py "0"
  | _ => nameOf i

theorem keyText_injective (r : Rule) : Function.Injective (keyText r) := by
  intro i j h
  have hlength := congrArg List.length h
  cases r <;> simpa [keyText, nameOf] using hlength

theorem pidOf_of_pos {pid : Int} (hpos : 0 < pid) {event : Mapping F}
    (htgid : lookup (py "tgid") event = none) (hpid : lookup (py "pid") event = some (.int pid)) :
    pidOf event = .ok pid := by
  have hne : pid ≠ 0 := by omega
  unfold pidOf getTruthy
  rw [htgid, hpid]
  simp [Option.filter, truthy, hne, pyInt]

theorem keyEvent_spec {pid : Int} (hpos : 0 < pid) {r : Rule} (hr : r ∈ keyRules) (i : Nat) :
    pidOf (keyEvent pid r i : Mapping F) = .ok pid ∧ KeyEvent (keyEvent pid r i : Mapping F) ∧
      recorded (keyEvent pid r i : Mapping F) = some (r, keyText r i) := by
  simp only [keyRules, List.mem_cons, List.not_mem_nil, or_false] at hr
  rcases hr with rfl | rfl | rfl
  · exact ⟨pidOf_of_pos hpos rfl rfl, .inl rfl, rfl⟩
  · exact ⟨pidOf_of_pos hpos rfl rfl, .inr (.inl rfl), rfl⟩
  · exact ⟨pidOf_of_pos hpos rfl rfl, .inr (.inr rfl), rfl⟩

/-- For every key rule as many events as it has occurrences to score. -/
def exhaust (p : AcceptedPolicy T) (pid : Int) : List (Mapping F) :=
  keyRules.flatMap fun r => (List.range (cap p r)).map (keyEvent pid r)

theorem mem_exhaust {pid : Int} {event : Mapping F} (h : event ∈ exhaust p pid) :
    ∃ r ∈ keyRules, ∃ i, event = keyEvent pid r i := by
  obtain ⟨r, hr, hevent⟩ := List.mem_flatMap.1 h
  obtain ⟨i, -, rfl⟩ := List.mem_map.1 hevent
  exact ⟨r, hr, i, rfl⟩

theorem exhaust_recorded (p : AcceptedPolicy T) {pid : Int} (hpos : 0 < pid) :
    (exhaust p pid : List (Mapping F)).filterMap recorded =
      keyRules.flatMap fun r => ((List.range (cap p r)).map (keyText r)).map (Prod.mk r) := by
  have hrule : ∀ r ∈ keyRules,
      ((List.range (cap p r)).map (keyEvent (F := F) pid r)).filterMap recorded =
        ((List.range (cap p r)).map (keyText r)).map (Prod.mk r) := by
    intro r hr
    rw [List.filterMap_map, List.map_map, ← List.filterMap_eq_map]
    refine List.filterMap_congr fun i _ => ?_
    exact (keyEvent_spec hpos hr i).2.2
  simp only [exhaust, keyRules, List.flatMap_cons, List.flatMap_nil, List.append_nil,
    List.filterMap_append]
  rw [hrule .distinctFileWrite (by decide), hrule .fileRename (by decide),
    hrule .outboundConnection (by decide)]

/-- Every key rule is scored as often as it can be. -/
theorem distinctKeys_exhaust (p : AcceptedPolicy T) {pid : Int} (hpos : 0 < pid) {r : Rule}
    (hr : r ∈ keyRules) :
    (distinctKeys (exhaust p pid : List (Mapping F)) r).card = cap p r := by
  have hself : ((List.range (cap p r)).map (keyText r)).toFinset.card = cap p r := by
    rw [List.toFinset_card_of_nodup (List.nodup_range.map (keyText_injective r)), List.length_map,
      List.length_range]
  rw [distinctKeys, exhaust_recorded p hpos]
  simp only [keyRules, List.flatMap_cons, List.flatMap_nil, List.append_nil, keysOf_append]
  simp only [keyRules, List.mem_cons, List.not_mem_nil, or_false] at hr
  rcases hr with rfl | rfl | rfl
  · rw [keysOf_map_self, keysOf_map_ne (by decide), keysOf_map_ne (by decide), Finset.empty_union,
      Finset.union_empty, hself]
  · rw [keysOf_map_self, keysOf_map_ne (by decide), keysOf_map_ne (by decide), Finset.empty_union,
      Finset.union_empty, hself]
  · rw [keysOf_map_self, keysOf_map_ne (by decide), keysOf_map_ne (by decide), Finset.empty_union,
      Finset.empty_union, hself]

theorem keyWorth_exhaust (p : AcceptedPolicy T) {pid : Int} (hpos : 0 < pid) :
    keyWorth p (exhaust p pid : List (Mapping F)) =
      (keyRules.map fun r => (p.spec r).maximumContribution).sum := by
  have hrule : ∀ r ∈ keyRules, (p.spec r).weight * min (p.spec r).maxOccurrences
      ((distinctKeys (exhaust p pid : List (Mapping F)) r).card : Int) =
        (p.spec r).maximumContribution := by
    intro r hr
    have hpositive := (p.spec_facts r).2.2
    rw [distinctKeys_exhaust p hpos hr, cap, Int.toNat_of_nonneg hpositive.le, min_self]
    rfl
  rw [keyWorth]
  exact congrArg List.sum (List.map_congr_left hrule)

/-- A runtime-only state whose indicators come to the threshold recommends quarantine. -/
theorem RuntimeOnly.quarantined {b : Nat} {events : List (Mapping F)} {s s' : ExecutionState T F}
    (h : RuntimeOnly p b s) (habsorbed : Absorbed p events s s')
    (hany : ∃ event ∈ events, converts event = true)
    (hweight : p.threshold .quarantineMin ≤ indicatorWeight s') :
    s'.recommendedAction = .quarantine := by
  obtain ⟨m, -, haction⟩ := h.action
  have hscored := habsorbed.scored hany
  have hthreshold := p.threshold_facts.2.2.2
  have hstatus : s'.status ≠ .deniedPreExecution := by
    rw [habsorbed.noted.status]
    exact h.status
  have hcombined : p.threshold .quarantineMin ≤ s'.combinedScore := by
    rw [hscored.combined, hscored.runtime, habsorbed.noted.preScore, h.preScore]
    omega
  have hfor : actionFor p s' = .quarantine := by
    rw [actionFor_of_not_denied hstatus, scoreAction, if_pos hcombined]
  have hrank : ¬ Action.quarantine.rank < (scoreAction p m).rank := by
    unfold scoreAction
    split_ifs <;> decide
  rw [hscored.action, hfor, haction, escalate, if_neg hrank]

/-- The exec event that starts a state. -/
def startEvent (pid ppid : Int) : Mapping F :=
  [(py "event_type", .str (py "PROCESS_EXEC")), (py "pid", .int pid), (py "ppid", .int ppid),
    (py "timestamp_ns", .int 1)]

theorem startEvent_exec {pid ppid : Int} (hpid : 0 < pid) (hppid : 0 < ppid) :
    ExecEvent pid ppid 0 1 (startEvent pid ppid : Mapping F) := by
  refine ⟨pidOf_of_pos hpid rfl rfl, rfl, ?_, rfl, rfl, by decide⟩
  have hne : ppid ≠ 0 := by omega
  have hlookup : lookup (py "ppid") (startEvent pid ppid : Mapping F) = some (.int ppid) := rfl
  unfold intOr getTruthy
  rw [hlookup]
  simp [Option.filter, truthy, hne, pyInt]

/-- From a started state, the events of `exhaust` reach the bound. -/
theorem exhaust_quarantines (h : WithinTtl env p) {pid : Int} (hpos : 0 < pid) {b : Nat}
    {e : Engine T F} (hconfined : Confined p b pid e) {s : ExecutionState T F}
    (hlive : e.states.get? pid = some s) (hs : Seen env s) (hfresh : KeyFresh s)
    (hweight : indicatorWeight s = (p.spec .childProcessExec).weight * b)
    (hthreshold : p.threshold .quarantineMin ≤ ceiling p b) :
    ∃ s', (ingestAll env p (exhaust p pid) e).states.get? pid = some s' ∧
      s'.recommendedAction = .quarantine := by
  have hevents : ∀ event ∈ (exhaust p pid : List (Mapping F)),
      pidOf event = .ok pid ∧ KeyEvent event := by
    intro event hevent
    obtain ⟨r, hr, i, rfl⟩ := mem_exhaust hevent
    exact ⟨(keyEvent_spec hpos hr i).1, (keyEvent_spec hpos hr i).2.1⟩
  obtain ⟨s', hlive', habsorbed⟩ := ingestAll_absorbs h hpos hevents hconfined.keyed hs hlive
  refine ⟨s', hlive', (hconfined.only s hlive).quarantined habsorbed ?_ ?_⟩
  · have hroom : 0 < cap p .distinctFileWrite := by
      have hpositive := (p.spec_facts .distinctFileWrite).2.2
      unfold cap
      omega
    refine ⟨keyEvent pid .distinctFileWrite 0, ?_, rfl⟩
    exact List.mem_flatMap.2 ⟨_, .head _, List.mem_map.2 ⟨0, List.mem_range.2 hroom, rfl⟩⟩
  · rw [habsorbed.weight_of_keyFresh hfresh, hweight, keyWorth_exhaust p hpos]
    unfold ceiling at hthreshold
    omega

/-! ## Reachable policies -/

/-- Events of `pid` alone lead to a quarantine recommendation. -/
def ReachesAlone (F : Type) [FloatNum F] (env : Env T) (p : AcceptedPolicy T) (pid : Int) : Prop :=
  ∃ events : List (Mapping F), (∀ event ∈ events, pidOf event = .ok pid) ∧
    ∃ s, (ingestAll env p events {}).states.get? pid = some s ∧ s.recommendedAction = .quarantine

/-- Calls of any kind and for any process, but no fanotify record of `pid`, lead to one. -/
def ReachesWithOthers (F : Type) [FloatNum F] (env : Env T) (p : AcceptedPolicy T) (pid : Int) :
    Prop :=
  ∃ calls : List (Call T F), (∀ c ∈ calls, NoRecord pid c) ∧
    ∃ s, (runCalls env p calls {}).states.get? pid = some s ∧ s.recommendedAction = .quarantine

theorem reachesAlone_of_le (h : WithinTtl env p) {pid : Int} (hpos : 0 < pid)
    (hle : p.threshold .quarantineMin ≤ ceiling p 0) : ReachesAlone F env p pid := by
  have hstart : ExecEvent pid pid 0 1 (startEvent pid pid : Mapping F) :=
    startEvent_exec hpos hpos
  have hconfined := initial_confined (F := F) p 0 pid
  have hnone := expire_none_of_none env p hconfined.keyed (Dict.get?_empty pid)
  obtain ⟨s, hlive, hs, hfresh, hweight⟩ := exec_starts hstart hpos hconfined.keyed hnone
  have halone : (inheritedParent env p pid ({} : Engine T F)) = none :=
    parentOf_of_lone env p (fun pid' _ => expire_none_of_none env p hconfined.keyed rfl) hnone pid
  rw [halone] at hweight
  obtain ⟨s', hlive', haction⟩ := exhaust_quarantines h hpos
    (ingest_confined env hstart.pid_eq hconfined) hlive hs hfresh (by simpa using hweight) hle
  refine ⟨startEvent pid pid :: exhaust p pid, ?_, s', hlive', haction⟩
  intro event hevent
  rcases List.mem_cons.1 hevent with rfl | hevent
  · exact hstart.pid_eq
  · obtain ⟨r, hr, i, rfl⟩ := mem_exhaust hevent
    exact (keyEvent_spec hpos hr i).1

theorem reachesWithOthers_of_le (h : WithinTtl env p)
    (hinherit : ∀ i j, env.clock i - env.clock j ≤ p.toPolicy.inheritanceWindowSeconds)
    {pid : Int} (hpos : 0 < pid) (hle : p.threshold .quarantineMin ≤ ceiling p 1) :
    ReachesWithOthers F env p pid := by
  have hparentPos : 0 < pid + 1 := by omega
  have hparent : ExecEvent (pid + 1) (pid + 1) 0 1 (startEvent (pid + 1) (pid + 1) : Mapping F) :=
    startEvent_exec hparentPos hparentPos
  have hchild : ExecEvent pid (pid + 1) 0 1 (startEvent pid (pid + 1) : Mapping F) :=
    startEvent_exec hpos hparentPos
  have hstep : ∀ (event : Mapping F) (e : Engine T F), Confined p 1 pid e →
      Confined p 1 pid (ingestRuntimeEvent env p event e).2 := fun event e hconfined =>
    perform_confined env (show NoRecord pid (.ingestRuntimeEvent event) from trivial) hconfined
  have hconfined := initial_confined (F := F) p 1 pid
  -- the parent
  obtain ⟨s₀, hlive₀, hs₀, -, -⟩ := exec_starts hparent hparentPos hconfined.keyed
    (expire_none_of_none env p hconfined.keyed (Dict.get?_empty (pid + 1)))
  have hne : pidOf (startEvent (pid + 1) (pid + 1) : Mapping F) ≠ .ok pid := by
    rw [hparent.pid_eq]
    simp
  have hframe : Frame pid {} (ingestRuntimeEvent env p (startEvent (pid + 1) (pid + 1)) {}).2 :=
    ingestRuntimeEvent_frame hne hconfined.keyed
  have hnone₁ := hframe.none (Dict.get?_empty pid)
  have hconfined₁ := hstep (startEvent (pid + 1) (pid + 1)) {} hconfined
  -- the child
  obtain ⟨s, hlive, hs, hfresh, hweight⟩ := exec_starts hchild hpos hconfined₁.keyed
    (expire_none_of_none env p hconfined₁.keyed hnone₁)
  have hinherited : (inheritedParent env p (pid + 1)
      (ingestRuntimeEvent env p (startEvent (pid + 1) (pid + 1) : Mapping F) {}).2).isSome =
        true := by
    have hlive₁ := hs₀.expire h hlive₀
    obtain ⟨k, hk⟩ := hs₀.reading
    unfold inheritedParent parentOf
    simp only [hlive₁, hk]
    rw [if_pos (hinherit _ _)]
    rfl
  rw [if_pos hinherited] at hweight
  have hconfined₂ := hstep (startEvent pid (pid + 1)) _ hconfined₁
  obtain ⟨s', hlive', haction⟩ := exhaust_quarantines h hpos hconfined₂ hlive hs hfresh
    (by simpa using hweight) hle
  exact ⟨.ingestRuntimeEvent (startEvent (pid + 1) (pid + 1)) ::
    .ingestRuntimeEvent (startEvent pid (pid + 1)) :: (exhaust p pid).map .ingestRuntimeEvent,
    by simp [NoRecord], s', hlive', haction⟩

/-- **Which policies a runtime-only process can reach.** With a clock that stays within the time to
    live and the inheritance window: events of one process alone lead to a quarantine recommendation
    exactly when the maxima of the three key rules reach `quarantine_min`; and with any other calls,
    but no fanotify record of the process, exactly when those maxima and one child exec do. -/
theorem quarantine_reachable_iff (F : Type) [FloatNum F] (env : Env T) (p : AcceptedPolicy T)
    {pid : Int} (hpos : 0 < pid) (h : WithinTtl env p)
    (hinherit : ∀ i j, env.clock i - env.clock j ≤ p.toPolicy.inheritanceWindowSeconds) :
    (ReachesAlone F env p pid ↔ p.threshold .quarantineMin ≤ ceiling p 0) ∧
      (ReachesWithOthers F env p pid ↔ p.threshold .quarantineMin ≤ ceiling p 1) := by
  refine ⟨⟨?_, reachesAlone_of_le h hpos⟩, ⟨?_, reachesWithOthers_of_le h hinherit hpos⟩⟩
  · rintro ⟨events, hevents, s, hlive, haction⟩
    have hconfined := ingestAll_confined env hevents (initial_confined p 0 pid)
    exact (hconfined.only s hlive).quarantine_le haction
  · rintro ⟨calls, hcalls, s, hlive, haction⟩
    have hconfined := runCalls_confined env hcalls (initial_confined p 1 pid)
    exact (hconfined.only s hlive).quarantine_le haction

/-- The shipped policy can be reached by events of one process alone. -/
theorem default_policy_reachable :
    ReachesAlone SampleFloat stillEnv acceptedDefaultPolicy 7 :=
  (quarantine_reachable_iff SampleFloat stillEnv acceptedDefaultPolicy (by decide)
    (fun _ _ => (by decide : ¬ (300 : ℤ) < 0 - 0))
    (fun _ _ => (by decide : (0 : ℤ) - 0 ≤ 30))).1.2 (by decide)

/-- A policy that is accepted for what an identifier mismatch could score. -/
def mismatchPolicy : AcceptedPolicy ℤ :=
  ⟨{ defaultPolicy with
      runtimeRules := ⟨[
        (Rule.distinctFileWrite.name, ⟨Rule.distinctFileWrite.name, 1, 1, py "write"⟩),
        (Rule.fileRename.name, ⟨Rule.fileRename.name, 1, 1, py "rename"⟩),
        (Rule.outboundConnection.name, ⟨Rule.outboundConnection.name, 1, 1, py "connect"⟩),
        (Rule.childProcessExec.name, ⟨Rule.childProcessExec.name, 1, 1, py "child"⟩),
        (Rule.executableIdentifierMismatch.name,
          ⟨Rule.executableIdentifierMismatch.name, 20, 5, py "mismatch"⟩)], by decide⟩ }, by rfl⟩

/-- No run without a fanotify record of the process reaches it, with any clock. -/
theorem mismatch_policy_unreachable : mismatchPolicy.toPolicy.validate = .ok () ∧
    ∀ env pid, ¬ ReachesWithOthers SampleFloat env mismatchPolicy pid := by
  refine ⟨mismatchPolicy.accepted, ?_⟩
  rintro env pid ⟨calls, hcalls, s, hlive, haction⟩
  have hconfined := runCalls_confined env hcalls (initial_confined mismatchPolicy 1 pid)
  have hle := (hconfined.only s hlive).quarantine_le haction
  exact absurd hle (by decide)

end Elyra.Correlation
