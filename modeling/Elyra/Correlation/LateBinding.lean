import Elyra.Correlation.Invariant

set_option autoImplicit false
set_option linter.unusedSectionVars false

/-! # Late binding

The two monitors are independent, so a fanotify record and the exec event of the same process are
processed in either order: the record creates a `PENDING_EXEC` state that the event activates, or
the event creates a runtime-only state that the record is bound to late. This file computes the
state both orders lead to, with any calls for other processes in between, and says exactly when they
agree. They need not: the identifier mismatch is only evaluated when the event finds the record's
path, and the child-exec rule only when the event creates the state. -/

namespace Elyra.Correlation

open Elyra.Python

variable {T F : Type} [Zero T] [Min T] [Sub T] [LE T] [DecidableLE T] [LT T] [DecidableLT T]
variable [FloatNum F]
variable {env : Env T} {p : AcceptedPolicy T}

/-! ## Calls for other processes -/

/-- The table is indexed by the process of the state. -/
def Keyed (e : Engine T F) : Prop := ∀ pid s, e.states.get? pid = some s → s.pid = pid

/-- The step leaves the state of `pid` alone, or archives it. -/
structure Frame (pid : Int) (e e' : Engine T F) : Prop where
  keyed : Keyed e'
  entry : e'.states.get? pid = e.states.get? pid ∨ e'.states.get? pid = none
  reads : e.clockReads ≤ e'.clockReads

theorem Frame.refl {pid : Int} {e : Engine T F} (h : Keyed e) : Frame pid e e :=
  ⟨h, .inl rfl, le_rfl⟩

theorem Frame.trans {pid : Int} {e e' e'' : Engine T F} (h : Frame pid e e')
    (h' : Frame pid e' e'') : Frame pid e e'' := by
  refine ⟨h'.keyed, ?_, h.reads.trans h'.reads⟩
  rcases h'.entry with h'' | h''
  · rw [h'']
    exact h.entry
  · exact .inr h''

/-- A process without a state does not get one. -/
theorem Frame.none {pid : Int} {e e' : Engine T F} (h : Frame pid e e')
    (hnone : e.states.get? pid = none) : e'.states.get? pid = none := by
  rcases h.entry with h | h
  · rw [h, hnone]
  · exact h

theorem frame_clock {pid : Int} {e : Engine T F} (h : Keyed e) {n : Nat} (hn : e.clockReads ≤ n) :
    Frame pid e { e with clockReads := n } := ⟨h, .inl rfl, hn⟩

theorem readClock_frame (pid : Int) {e : Engine T F} (h : Keyed e) : Frame pid e e.readClock :=
  frame_clock h (Nat.le_succ _)

theorem archive_frame (pid : Int) {e : Engine T F} (h : Keyed e) (pid' : Int) (reason : PyStr) :
    Frame pid e (e.archive pid' reason) := by
  unfold Engine.archive
  split
  · exact Frame.refl h
  · refine ⟨fun k s hs => h k s (Dict.get?_of_pop hs).2, ?_, le_rfl⟩
    by_cases hp : pid = pid'
    · exact .inr (by simp [hp])
    · exact .inl (Dict.get?_pop_ne _ hp)

theorem set_keyed {e : Engine T F} (h : Keyed e) (s : ExecutionState T F) :
    ∀ pid x, (e.states.set s.pid s).get? pid = some x → x.pid = pid := by
  intro pid x hx
  rw [Dict.get?_set] at hx
  split at hx
  · next hpid =>
    simp only [Option.some.injEq] at hx
    rw [← hx, hpid]
  · exact h pid x hx

theorem put_frame {pid : Int} {e : Engine T F} (h : Keyed e) {s : ExecutionState T F}
    (hs : s.pid ≠ pid) : Frame pid e (e.put s) :=
  ⟨set_keyed h s, .inl (Dict.get?_set_ne _ (Ne.symm hs) _), le_rfl⟩

/-- Mutating the state of another process and reading the clock for it. -/
theorem put_clock_frame {pid : Int} {e : Engine T F} (h : Keyed e) {s : ExecutionState T F}
    (hs : s.pid ≠ pid) {n : Nat} (hn : e.clockReads ≤ n) :
    Frame pid e { e.put s with clockReads := n } :=
  (put_frame h hs).trans (frame_clock (put_frame h hs).keyed hn)

theorem evict_frame (p : AcceptedPolicy T) (pid : Int) {e : Engine T F} (h : Keyed e) : Frame pid e (evict p e) := by
  unfold evict
  split
  · split
    · exact Frame.refl h
    · exact archive_frame pid h _ _
  · exact Frame.refl h

theorem recalculate_reads (reason : PyStr) (s : ExecutionState T F) (reads : Nat) :
    reads ≤ (recalculate env p reason s reads).2 := by
  unfold recalculate
  dsimp only
  split
  · exact Nat.le_succ _
  · exact le_rfl

theorem applyRule_reads (r : Rule) (evidence : Json F) (s : ExecutionState T F) (reads : Nat) :
    reads ≤ (applyRule env p r evidence s reads).2 := by
  unfold applyRule
  dsimp only
  split
  · exact le_rfl
  · exact recalculate_reads ..

theorem newState_frame {pid : Int} {a : NewState F} {e : Engine T F} (h : Keyed e)
    (ha : a.pid ≠ pid) : Frame pid e (newState env p a e).2 := by
  have hevict := evict_frame p pid h
  refine hevict.trans ⟨?_, .inl (Dict.get?_set_ne _ (Ne.symm ha) _), ?_⟩
  · have hkeyed := set_keyed hevict.keyed (newState env p a e).1
    rw [newState_pid] at hkeyed
    exact hkeyed
  · exact (Nat.le_succ _).trans (recalculate_reads ..)

theorem expire_frame (env : Env T) (p : AcceptedPolicy T) (pid : Int) (now : Option T) {e : Engine T F} (h : Keyed e) :
    Frame pid e (expire env p now e).2 := by
  have hfold : ∀ (expired : List (Int × PyStr)) (e : Engine T F), Keyed e →
      Frame pid e (expired.foldl (fun e x => e.archive x.1 x.2) e) := by
    intro expired
    induction expired with
    | nil => exact fun e h => Frame.refl h
    | cons x expired ih =>
        intro e h
        have harch := archive_frame pid h x.1 x.2
        exact harch.trans (ih _ harch.keyed)
  unfold expire
  cases now with
  | none => exact (readClock_frame pid h).trans (hfold _ e.readClock h)
  | some now => exact hfold _ e h

theorem bindRegistration_frame {pid pid' : Int} (hne : pid' ≠ pid) (r : Registration F) (now : T)
    {e : Engine T F} (h : Keyed e) : Frame pid e (bindRegistration env p r pid' now e).2 := by
  unfold bindRegistration
  split
  · next s hs =>
    split
    · have hpid : (recalculate env p (py "FANOTIFY_LATE_BINDING") (bindLate r now s)
          e.clockReads).1.pid = pid' := (recalculate_grows ..).pid.trans (h pid' s hs)
      exact put_clock_frame h (hpid ▸ hne) (recalculate_reads ..)
    · have harch := archive_frame pid h pid' (py "SUPERSEDED_BY_NEW_PRE_EXECUTION")
      exact harch.trans (newState_frame harch.keyed hne)
  · exact newState_frame h hne

theorem registerPreExecution_frame {pid : Int} {record : Mapping F} (hne : pidOf record ≠ .ok pid)
    {e : Engine T F} (h : Keyed e) : Frame pid e (registerPreExecution env p record e).2 := by
  have hexp := expire_frame env p pid none h
  refine hexp.trans ?_
  unfold registerPreExecution
  dsimp only
  split
  · exact Frame.refl hexp.keyed
  · next pid' hpid =>
    split
    · exact Frame.refl hexp.keyed
    · have hread := readClock_frame pid hexp.keyed
      refine hread.trans ?_
      split
      · exact Frame.refl hread.keyed
      · have hne' : pid' ≠ pid := fun heq => hne (by rw [hpid, heq])
        exact bindRegistration_frame hne' _ _ hread.keyed

theorem createRuntimeState_pid (event : Mapping F) (pid ppid uid : Int) (parentId : Option PyStr)
    (e : Engine T F) : (createRuntimeState env p event pid ppid uid parentId e).1.pid = pid := by
  have hpid := newState_pid env p (runtimeNewState pid ppid uid parentId) e
  unfold createRuntimeState
  dsimp only
  split
  · exact hpid
  · split
    · exact (applyRule_advance ..).grows.pid.trans hpid
    · exact hpid

theorem createRuntimeState_frame {pid pid' : Int} (hne : pid' ≠ pid) (event : Mapping F)
    (ppid uid : Int) (parentId : Option PyStr) {e : Engine T F} (h : Keyed e) :
    Frame pid e (createRuntimeState env p event pid' ppid uid parentId e).2 := by
  have hnew : Frame pid e (newState env p (runtimeNewState pid' ppid uid parentId) e).2 :=
    newState_frame h hne
  unfold createRuntimeState
  dsimp only
  split
  · exact hnew
  · split
    · refine hnew.trans (put_clock_frame hnew.keyed ?_ (applyRule_reads ..))
      rw [(applyRule_advance ..).grows.pid, newState_pid]
      exact hne
    · exact hnew

theorem parentOf_frame (env : Env T) (p : AcceptedPolicy T) (pid ppid : Int) {e : Engine T F}
    (h : Keyed e) : Frame pid e (parentOf env p ppid e).2 := by
  unfold parentOf
  split
  · exact Frame.refl h
  · exact readClock_frame pid h

theorem runtimeState_frame (env : Env T) (p : AcceptedPolicy T) {pid : Int} {event : Mapping F}
    (hne : pidOf event ≠ .ok pid) {e : Engine T F} (h : Keyed e) :
    Frame pid e (runtimeState env p event e).2 ∧
      ∀ s, (runtimeState env p event e).1 = .ok (some s) → s.pid ≠ pid := by
  unfold runtimeState
  split
  · exact ⟨Frame.refl h, fun s hs => absurd hs (by simp)⟩
  · next pid' hpid =>
    have hne' : pid' ≠ pid := fun heq => hne (by rw [hpid, heq])
    split
    · exact ⟨Frame.refl h, fun s hs => absurd hs (by simp)⟩
    · split
      · next s hs =>
        refine ⟨Frame.refl h, fun s' hs' => ?_⟩
        simp only [Except.ok.injEq, Option.some.injEq] at hs'
        rw [← hs', h pid' s hs]
        exact hne'
      · split
        · exact ⟨Frame.refl h, fun s hs => absurd hs (by simp)⟩
        · next ppid _ =>
          have hparent := parentOf_frame env p pid ppid h
          dsimp only
          split
          · exact ⟨hparent, fun s hs => absurd hs (by simp)⟩
          · refine ⟨hparent.trans (createRuntimeState_frame hne' _ _ _ _ hparent.keyed), ?_⟩
            intro s hs
            simp only [Except.ok.injEq, Option.some.injEq] at hs
            rw [← hs, createRuntimeState_pid]
            exact hne'

theorem finishIngest_frame {pid : Int} (event : Mapping F) {s s' : ExecutionState T F}
    (hs : s.pid ≠ pid) (ha : Advance p s s') {e : Engine T F} (h : Keyed e) {reads : Nat}
    (hreads : e.clockReads ≤ reads) : Frame pid e (finishIngest env p event s' reads e).2 := by
  have hpid : (recalculate env p (eventReason event) s' reads).1.pid ≠ pid := by
    rw [(recalculate_grows ..).pid, ha.grows.pid]
    exact hs
  exact put_clock_frame h hpid (hreads.trans (recalculate_reads ..))

theorem replaceGeneration_frame (env : Env T) (p : AcceptedPolicy T) {pid : Int}
    {event : Mapping F} (hne : pidOf event ≠ .ok pid) (timestamp : Int) {s : ExecutionState T F}
    (hs : s.pid ≠ pid) {e : Engine T F} (h : Keyed e) :
    Frame pid e (replaceGeneration env p event timestamp s e).2 ∧
      ∀ s', (replaceGeneration env p event timestamp s e).1 = .ok (some s') → s'.pid ≠ pid := by
  have hsame : ∀ s', (Except.ok (some s) : Except PyExc (Option (ExecutionState T F))) =
      .ok (some s') → s'.pid ≠ pid := by
    intro s' hs'
    simp only [Except.ok.injEq, Option.some.injEq] at hs'
    exact hs' ▸ hs
  unfold replaceGeneration
  split
  · exact ⟨Frame.refl h, hsame⟩
  · split
    · have harch := archive_frame pid h s.pid (py "PID_EXEC_GENERATION_REPLACED")
      have hrun := runtimeState_frame env p hne harch.keyed
      exact ⟨harch.trans hrun.1, hrun.2⟩
    · exact ⟨Frame.refl h, hsame⟩

theorem observeKey_reads (r : Rule) (key : PyStr) (evidence : Json F) (seen : List PyStr)
    (add : ExecutionState T F → List PyStr → ExecutionState T F) (s : ExecutionState T F)
    (reads : Nat) : reads ≤ (observeKey env p r key evidence seen add s reads).2 := by
  unfold observeKey
  split
  · exact le_rfl
  · exact applyRule_reads ..

theorem observeWrite_reads (event : Mapping F) (s : ExecutionState T F) (reads : Nat) :
    reads ≤ (observeWrite env p event s reads).2 := by
  unfold observeWrite
  split
  · exact le_rfl
  · exact le_rfl
  · exact observeKey_reads ..

theorem observeRename_reads (event : Mapping F) (s : ExecutionState T F) (reads : Nat) :
    reads ≤ (observeRename env p event s reads).2 := by
  unfold observeRename
  exact observeKey_reads ..

theorem observeConnect_reads (event : Mapping F) (s : ExecutionState T F) (reads : Nat) :
    reads ≤ (observeConnect env p event s reads).2 := by
  unfold observeConnect
  exact observeKey_reads ..

theorem observeExec_reads (event : Mapping F) (timestamp : Int) (s : ExecutionState T F)
    (reads : Nat) : reads ≤ (observeExec env p event timestamp s reads).2 := by
  unfold observeExec
  dsimp only
  split
  · exact le_rfl
  · exact applyRule_reads ..

theorem ingestKind_frame {pid : Int} {event : Mapping F} (hne : pidOf event ≠ .ok pid) (now : T)
    {s : ExecutionState T F} (hs : s.pid ≠ pid) {e : Engine T F} (h : Keyed e) :
    Frame pid e (ingestKind env p event now s e).2 := by
  unfold ingestKind
  split
  · split
    · exact Frame.refl h
    · next timestamp _ =>
      obtain ⟨hrep, hrep'⟩ := replaceGeneration_frame env p hne timestamp hs h
      split
      · next heq => rw [heq] at hrep; exact hrep
      · next heq => rw [heq] at hrep; exact hrep
      · next s' e' heq =>
        rw [heq] at hrep hrep'
        exact hrep.trans (finishIngest_frame event (hrep' s' rfl) (observeExec_advance ..)
          hrep.keyed (observeExec_reads ..))
  · exact finishIngest_frame event hs (observeWrite_advance ..) h (observeWrite_reads ..)
  · exact finishIngest_frame event hs (observeRename_advance ..) h (observeRename_reads ..)
  · exact finishIngest_frame event hs (observeConnect_advance ..) h (observeConnect_reads ..)
  · have ha := observeExit_advance (p := p) event now s
    split
    · next heq =>
      rw [heq] at ha
      exact put_frame h (by rw [ha.grows.pid]; exact hs)
    · next heq => rw [heq] at ha; exact finishIngest_frame event hs ha h le_rfl
  · exact finishIngest_frame event hs (Advance.refl s) h le_rfl

theorem ingestRuntimeEvent_frame {pid : Int} {event : Mapping F} (hne : pidOf event ≠ .ok pid)
    {e : Engine T F} (h : Keyed e) : Frame pid e (ingestRuntimeEvent env p event e).2 := by
  have hexp := expire_frame env p pid none h
  refine hexp.trans ?_
  unfold ingestRuntimeEvent
  dsimp only
  obtain ⟨hrun, hstate⟩ := runtimeState_frame env p hne hexp.keyed
  split
  · next heq => rw [heq] at hrun; exact hrun
  · next heq => rw [heq] at hrun; exact hrun
  · next s e' heq =>
    rw [heq] at hrun hstate
    have hs := hstate s rfl
    have hread := readClock_frame pid hrun.keyed
    refine (hrun.trans hread).trans ?_
    have ha := touch_advance (p := p) event (env.clock e'.clockReads) s
    split
    · next ht =>
      rw [ht] at ha
      exact put_frame hread.keyed (by rw [ha.grows.pid]; exact hs)
    · next s' ht =>
      rw [ht] at ha
      have hs' : s'.pid ≠ pid := by rw [ha.grows.pid]; exact hs
      have hput := put_frame hread.keyed hs'
      exact hput.trans (ingestKind_frame hne _ hs' hput.keyed)

/-- The calls that are not about process `pid`. -/
def OtherProcess (pid : Int) : Call T F → Prop
  | .registerPreExecution record => pidOf record ≠ .ok pid
  | .ingestRuntimeEvent event => pidOf event ≠ .ok pid
  | .expire _ => True
  | .recordActionResult pid' _ _ => pid' ≠ pid

theorem perform_frame (env : Env T) (p : AcceptedPolicy T) {pid : Int} {c : Call T F}
    (hc : OtherProcess pid c) {e : Engine T F} (h : Keyed e) : Frame pid e (perform env p c e).2 := by
  cases c with
  | registerPreExecution record => exact registerPreExecution_frame hc h
  | ingestRuntimeEvent event => exact ingestRuntimeEvent_frame hc h
  | expire now => exact expire_frame env p pid now h
  | recordActionResult pid' id result =>
      simp only [perform, recordActionResult]
      split
      · exact Frame.refl h
      · next s hs =>
        split
        · exact Frame.refl h
        · have hread := readClock_frame pid h
          exact hread.trans (put_frame hread.keyed (by rw [h pid' s hs]; exact hc))

/-- Calls for other processes leave the state of `pid` as it is, or archive it. -/
theorem runCalls_frame (env : Env T) (p : AcceptedPolicy T) {pid : Int} {calls : List (Call T F)}
    (hc : ∀ c ∈ calls, OtherProcess pid c) {e : Engine T F} (h : Keyed e) : Frame pid e (runCalls env p calls e) := by
  induction calls generalizing e with
  | nil => exact Frame.refl h
  | cons c calls ih =>
      have hstep := perform_frame env p (hc c (List.mem_cons_self ..)) h
      exact hstep.trans (ih (fun c' hc' => hc c' (List.mem_cons_of_mem _ hc')) hstep.keyed)

/-! ## Settled states

Along both orders the scores only grow and no state is denied, so the recommended action is the one
the final score asks for. -/

/-- The action the thresholds give a score. -/
def scoreAction (p : AcceptedPolicy T) (score : Int) : Action :=
  if p.threshold .quarantineMin ≤ score then .quarantine
  else if p.threshold .terminateMin ≤ score then .terminate
  else if p.threshold .alertMin ≤ score then .alert
  else .continueMonitoring

theorem actionFor_of_not_denied {s : ExecutionState T F} (h : s.status ≠ .deniedPreExecution) :
    actionFor p s = scoreAction p s.combinedScore := by
  simp only [actionFor, if_neg h, scoreAction]

theorem scoreAction_mono (p : AcceptedPolicy T) {m n : Int} (h : m ≤ n) :
    (scoreAction p m).rank ≤ (scoreAction p n).rank := by
  obtain ⟨-, h1, h2, -⟩ := p.threshold_facts
  unfold scoreAction
  split_ifs <;> first | decide | omega

/-- What the two orders are compared on. -/
structure Outcome (F : Type) where
  status : Status
  preExecutionScore : Int
  runtimeIndicators : Multiset (RuntimeIndicator F)
  combinedScore : Int
  recommendedAction : Action

def outcome (s : ExecutionState T F) : Outcome F :=
  ⟨s.status, s.preExecutionScore, s.runtimeIndicators, s.combinedScore, s.recommendedAction⟩

/-- The combined score of a pre-execution score and a list of indicators. -/
def combinedOf (pre : Int) (indicators : List (RuntimeIndicator F)) : Int :=
  min 100 (pre + min 100 (indicators.map (·.weight)).sum)

/-- The scores are up to date and the action is what the combined score asks for. -/
structure Settled (p : AcceptedPolicy T) (s : ExecutionState T F) : Prop where
  status : s.status ≠ .deniedPreExecution
  combined : s.combinedScore = combinedOf s.preExecutionScore s.runtimeIndicators
  action : s.recommendedAction = scoreAction p s.combinedScore

/-- The outcome of a settled state is a function of its status, score and indicators. -/
theorem Settled.outcome_eq_iff {s s' : ExecutionState T F} (h : Settled p s) (h' : Settled p s') :
    outcome s = outcome s' ↔ s.status = s'.status ∧ s.preExecutionScore = s'.preExecutionScore ∧
      s.runtimeIndicators.Perm s'.runtimeIndicators := by
  simp only [outcome, Outcome.mk.injEq, Multiset.coe_eq_coe]
  refine ⟨fun ⟨h1, h2, h3, _⟩ => ⟨h1, h2, h3⟩, fun ⟨h1, h2, h3⟩ => ?_⟩
  have hcomb : s.combinedScore = s'.combinedScore := by
    rw [h.combined, h'.combined, combinedOf, combinedOf, h2, (h3.map (·.weight)).sum_eq]
  exact ⟨h1, h2, h3, hcomb, by rw [h.action, h'.action, hcomb]⟩

/-- The fields `_recalculate` leaves alone. -/
structure SameEvidence (s s' : ExecutionState T F) : Prop where
  status : s'.status = s.status
  source : s'.source = s.source
  path : s'.executablePath = s.executablePath
  preScore : s'.preExecutionScore = s.preExecutionScore
  execTimestamp : s'.execTimestampNs = s.execTimestampNs
  created : s'.createdMonotonic = s.createdMonotonic
  indicators : s'.runtimeIndicators = s.runtimeIndicators
  occurrences : s'.ruleOccurrences = s.ruleOccurrences

theorem recalculate_same (reason : PyStr) (s : ExecutionState T F) (reads : Nat) :
    SameEvidence s (recalculate env p reason s reads).1 := by
  obtain ⟨ts, h⟩ := recalculate_fst env p reason s reads
  rw [h]
  exact ⟨rfl, rfl, rfl, rfl, rfl, rfl, rfl, rfl⟩

/-- Recalculating a state whose action was right for a lower score. -/
theorem recalculate_settled (env : Env T) (p : AcceptedPolicy T) (reason : PyStr)
    {s : ExecutionState T F} (reads : Nat) (hs : s.status ≠ .deniedPreExecution) {m : Int}
    (hact : s.recommendedAction = scoreAction p m)
    (hm : m ≤ combinedOf s.preExecutionScore s.runtimeIndicators) :
    Settled p (recalculate env p reason s reads).1 := by
  obtain ⟨ts, h⟩ := recalculate_fst env p reason s reads
  have hcomb : (rescored p s).combinedScore =
      combinedOf s.preExecutionScore s.runtimeIndicators := by
    simp only [rescored, p.facts.scoreMaximum, combinedOf]
  have hfor : actionFor p (rescored p s) = scoreAction p (rescored p s).combinedScore :=
    actionFor_of_not_denied hs
  rw [h]
  refine ⟨hs, hcomb, ?_⟩
  simp only [hfor, hact, hcomb]
  unfold escalate
  rw [if_neg]
  exact not_lt.2 (scoreAction_mono p hm)

/-- The first indicator of a rule. -/
def firstIndicator (p : AcceptedPolicy T) (r : Rule) (evidence : Json F) : RuntimeIndicator F :=
  ⟨r, (p.spec r).weight, 1, (p.spec r).maxOccurrences, evidence, (p.spec r).description⟩

/-- `_apply_rule` on a rule that has not occurred yet adds its first indicator. -/
theorem applyRule_first (env : Env T) {r : Rule} (evidence : Json F) {s : ExecutionState T F}
    (hs : Settled p s) (hocc : s.occurrences r = 0) (reads : Nat) :
    Settled p (applyRule env p r evidence s reads).1 ∧
      SameEvidence { s with
        ruleOccurrences := s.ruleOccurrences.set r 1
        runtimeIndicators := s.runtimeIndicators ++ [firstIndicator p r evidence] }
        (applyRule env p r evidence s reads).1 := by
  have hw := (p.spec_facts r).2.1
  have hcap : ¬ (p.spec r).maxOccurrences ≤ ((0 : Nat) : Int) := by
    have := (p.spec_facts r).2.2
    push_cast
    omega
  have hle : combinedOf s.preExecutionScore s.runtimeIndicators ≤ combinedOf s.preExecutionScore
      (s.runtimeIndicators ++ [firstIndicator p r evidence]) := by
    simp only [combinedOf, List.map_append, List.sum_append, List.map_cons, List.map_nil,
      List.sum_cons, List.sum_nil, firstIndicator]
    omega
  simp only [applyRule, hocc, if_neg hcap, Nat.zero_add]
  refine ⟨recalculate_settled env p _ reads hs.status hs.action ?_, recalculate_same ..⟩
  rw [hs.combined]
  exact hle

/-! ## The four second halves -/

/-- A well-formed fanotify record for `pid` that allows the execution. -/
structure AllowedRecord (pid : Int) (record : Mapping F) (r : Registration F) : Prop where
  pid_eq : pidOf record = .ok pid
  fields_eq : registrationOf record = .ok r
  allowed : r.denied = false

/-- A well-formed exec event for `pid`, with a positive timestamp. -/
structure ExecEvent (pid ppid uid timestamp : Int) (event : Mapping F) : Prop where
  pid_eq : pidOf event = .ok pid
  kind_eq : kindOf event = .processExec
  ppid_eq : intOr event "ppid" 0 = .ok ppid
  uid_eq : intOr event "uid" 0 = .ok uid
  timestamp_eq : intOr event "timestamp_ns" 0 = .ok timestamp
  positive : 0 < timestamp

/-- A conversion that succeeds with one default succeeds with every default. -/
theorem intOr_default {m : Mapping F} {key : String} {d n : Int} (h : intOr m key d = .ok n)
    (d' : Int) : ∃ n', intOr m key d' = .ok n' := by
  unfold intOr at h ⊢
  split at h
  · exact ⟨d', rfl⟩
  · exact ⟨n, h⟩

/-- The state of `pid` after the call. -/
def liveAfter (r : Except PyExc (Answer T F) × Engine T F) (pid : Int) :
    Option (ExecutionState T F) := r.2.states.get? pid

/-- A state as `_new_state` leaves it. -/
structure FreshState (p : AcceptedPolicy T) (a : NewState F) (s : ExecutionState T F) : Prop where
  settled : Settled p s
  status : s.status = a.status
  source : s.source = a.source
  path : s.executablePath = a.executablePath
  preScore : s.preExecutionScore = a.preExecutionScore
  execTimestamp : s.execTimestampNs = none
  indicators : s.runtimeIndicators = []
  occurrences : s.ruleOccurrences = Dict.empty

theorem newState_fresh {a : NewState F} (ha : a.status ≠ .deniedPreExecution)
    (hpre : 0 ≤ a.preExecutionScore) (e : Engine T F) :
    FreshState p a (newState env p a e).1 := by
  have hzero : scoreAction p 0 = .continueMonitoring := by
    obtain ⟨h0, h1, h2, -⟩ := p.threshold_facts
    unfold scoreAction
    rw [if_neg (by omega), if_neg (by omega), if_neg (by omega)]
  have hsame : SameEvidence (a.build (env.idFactory (evict p e).idsIssued)
      ((evict p e).nextGeneration a.pid) (env.clock (evict p e).clockReads))
      (newState env p a e).1 := recalculate_same ..
  refine ⟨?_, hsame.status, hsame.source, hsame.path, hsame.preScore, hsame.execTimestamp,
    hsame.indicators, hsame.occurrences⟩
  refine recalculate_settled env p _ _ ha hzero.symm ?_
  simp only [NewState.build, combinedOf, List.map_nil, List.sum_nil]
  omega

theorem expire_none_of_none (env : Env T) (p : AcceptedPolicy T) {pid : Int} {e : Engine T F}
    (hk : Keyed e) (hnone : e.states.get? pid = none) : (expire env p none e).2.states.get? pid = none :=
  (expire_frame env p pid none hk).none hnone

/-- The record finds no state: it creates a `PENDING_EXEC` one. -/
theorem register_creates {pid : Int} {record : Mapping F} {r : Registration F}
    (hr : AllowedRecord pid record r) (hpid : 0 < pid) {e : Engine T F}
    (hnone : (expire env p none e).2.states.get? pid = none) :
    ∃ s, liveAfter (registerPreExecution env p record e) pid = some s ∧
      FreshState p (r.newState pid) s := by
  have hpid' : ¬ pid ≤ 0 := by omega
  have hnone' : (expire env p none e).2.readClock.states.get? pid = none := hnone
  simp only [liveAfter, registerPreExecution, hr.pid_eq, if_neg hpid', hr.fields_eq, bindRegistration,
    hnone']
  refine ⟨_, get?_newState .., newState_fresh ?_ ?_ _⟩
  · simp [Registration.newState, hr.allowed]
  · exact registrationOf_score_nonneg hr.fields_eq

/-- The indicator an exec event adds to a state with the given path: none when the names are
    lexically the same. -/
def mismatchIndicators (p : AcceptedPolicy T) (path identifier : Option PyStr) :
    List (RuntimeIndicator F) :=
  if lexicallySame path identifier then []
  else [firstIndicator p .executableIdentifierMismatch (.obj [
    (py "fanotify_path", (path.map Json.str).getD .null),
    (py "ebpf_identifier", (identifier.map Json.str).getD .null)])]

/-- The end of both orders' exec event: the state it finds or creates becomes active. -/
structure Activated (p : AcceptedPolicy T) (event : Mapping F) (s s' : ExecutionState T F) :
    Prop where
  settled : Settled p s'
  status : s'.status = .active
  source : s'.source = s.source
  preScore : s'.preExecutionScore = s.preExecutionScore
  created : s'.createdMonotonic = s.createdMonotonic
  indicators : s'.runtimeIndicators = s.runtimeIndicators ++
    mismatchIndicators p s.executablePath (nonEmptyText event "executable_identifier")

theorem touch_ok (p : AcceptedPolicy T) {pid ppid uid timestamp : Int} {event : Mapping F}
    (he : ExecEvent pid ppid uid timestamp event) (now : T) (s : ExecutionState T F) :
    ∃ s', touch event now s = (.ok (), s') ∧ s'.pid = s.pid ∧ SameEvidence s s' ∧
      (Settled p s → Settled p s') := by
  obtain ⟨ppid', hp⟩ := intOr_default he.ppid_eq s.ppid
  obtain ⟨uid', hu⟩ := intOr_default he.uid_eq s.uid
  exact ⟨{ s with lastSeenMonotonic := now, ppid := ppid', uid := uid' },
    by simp only [touch, hp, hu], rfl, ⟨rfl, rfl, rfl, rfl, rfl, rfl, rfl, rfl⟩,
    fun hs => ⟨hs.status, hs.combined, hs.action⟩⟩

theorem markExec_settled (event : Mapping F) (timestamp : Int) {s : ExecutionState T F}
    (hs : Settled p s) : Settled p (markExec event timestamp s) :=
  ⟨by simp [markExec], hs.combined, hs.action⟩

theorem observeExec_activates (env : Env T) (event : Mapping F) (timestamp : Int)
    {s : ExecutionState T F} (hs : Settled p s)
    (hocc : s.occurrences .executableIdentifierMismatch = 0) (reads : Nat) :
    Activated p event s (observeExec env p event timestamp s reads).1 := by
  have hmark := markExec_settled event timestamp hs
  unfold observeExec
  dsimp only
  split
  · next hlex =>
    have hlex' : lexicallySame s.executablePath (nonEmptyText event "executable_identifier") = true :=
      hlex
    exact ⟨hmark, rfl, rfl, rfl, rfl, by simp [mismatchIndicators, hlex', markExec]⟩
  · next hlex =>
    have hlex' : ¬ lexicallySame s.executablePath (nonEmptyText event "executable_identifier") =
        true := hlex
    obtain ⟨hset, hsame⟩ := applyRule_first env (mismatchEvidence (markExec event timestamp s))
      hmark hocc reads
    refine ⟨hset, hsame.status, hsame.source, hsame.preScore, hsame.created, ?_⟩
    rw [hsame.indicators, mismatchIndicators, if_neg hlex']
    rfl

/-- Recalculating an activated state leaves it activated. -/
theorem Activated.recalculate (env : Env T) {event : Mapping F} {s s' : ExecutionState T F}
    (h : Activated p event s s') (reason : PyStr) (reads : Nat) :
    Activated p event s (recalculate env p reason s' reads).1 := by
  have hsame : SameEvidence s' (Elyra.Correlation.recalculate env p reason s' reads).1 :=
    recalculate_same ..
  refine ⟨recalculate_settled env p reason reads h.settled.status h.settled.action
    h.settled.combined.le, hsame.status.trans h.status, hsame.source.trans h.source,
    hsame.preScore.trans h.preScore, hsame.created.trans h.created,
    hsame.indicators.trans h.indicators⟩

theorem Activated.of_same {event : Mapping F} {s s₁ s' : ExecutionState T F}
    (hsame : SameEvidence s s₁) (h : Activated p event s₁ s') : Activated p event s s' :=
  ⟨h.settled, h.status, h.source.trans hsame.source, h.preScore.trans hsame.preScore,
    h.created.trans hsame.created, by rw [h.indicators, hsame.indicators, hsame.path]⟩

/-- An exec event on a state that has not executed yet. -/
theorem exec_activates {pid ppid uid timestamp : Int} {event : Mapping F}
    (he : ExecEvent pid ppid uid timestamp event) {e e' : Engine T F} {s : ExecutionState T F}
    (hrun : runtimeState env p event (expire env p none e).2 = (.ok (some s), e'))
    (hpid : s.pid = pid) (hexec : s.execTimestampNs = none) (hs : Settled p s)
    (hocc : s.occurrences .executableIdentifierMismatch = 0) :
    e'.clockReads ≤ (ingestRuntimeEvent env p event e).2.clockReads ∧
      ∃ s', liveAfter (ingestRuntimeEvent env p event e) pid = some s' ∧
        Activated p event s s' := by
  obtain ⟨s₁, htouch, hpid₁, hsame, hset⟩ := touch_ok p he (env.clock e'.clockReads) s
  have hexec₁ : s₁.execTimestampNs = none := hsame.execTimestamp.trans hexec
  have hocc₁ : s₁.occurrences .executableIdentifierMismatch = 0 := by
    rw [ExecutionState.occurrences, hsame.occurrences]
    exact hocc
  simp only [liveAfter, ingestRuntimeEvent, hrun, htouch, ingestKind, he.kind_eq, he.timestamp_eq,
    replaceGeneration, hexec₁, finishIngest]
  generalize hreads : (e'.readClock.put s₁).clockReads = reads
  have hlt : e'.clockReads ≤ reads := hreads ▸ Nat.le_succ _
  have hobs : reads ≤ (observeExec env p event timestamp s₁ reads).2 := observeExec_reads ..
  have hpid₂ : (observeExec env p event timestamp s₁ reads).1.pid = s₁.pid :=
    (observeExec_advance ..).grows.pid
  have hact := observeExec_activates env event timestamp (hset hs) hocc₁ reads
  generalize observeExec env p event timestamp s₁ reads = obs at *
  refine ⟨?_, _, ?_, (hact.recalculate env (eventReason event) obs.2).of_same hsame⟩
  · exact (hlt.trans hobs).trans (recalculate_reads ..)
  · have hpid₃ : (recalculate env p (eventReason event) obs.1 obs.2).1.pid = pid := by
      rw [(recalculate_grows ..).pid, hpid₂, hpid₁, hpid]
    rw [← hpid₃]
    exact get?_put_self _ _

/-- The indicator an exec event adds to the state it creates. -/
def childIndicators (p : AcceptedPolicy T) (ppid : Int) : Option PyStr → List (RuntimeIndicator F)
  | none => []
  | some id => [firstIndicator p .childProcessExec (childEvidence ppid id)]

/-- The parent an exec event would inherit from if it had to create the state: a live state of the
    parent process, seen within the inheritance window. -/
def inheritedParent (env : Env T) (p : AcceptedPolicy T) (ppid : Int) (e : Engine T F) :
    Option PyStr := (parentOf env p ppid (expire env p none e).2).1

/-- A runtime-only state as the exec event leaves it; `created` is a clock reading of that call. -/
structure RuntimeCreated (env : Env T) (p : AcceptedPolicy T) (parent : Option PyStr) (ppid : Int)
    (e e' : Engine T F) (s : ExecutionState T F) : Prop where
  settled : Settled p s
  status : s.status = .active
  source : s.source = .runtimeOnly
  preScore : s.preExecutionScore = 0
  indicators : s.runtimeIndicators = childIndicators p ppid parent
  created : ∃ k, e.clockReads ≤ k ∧ k < e'.clockReads ∧ s.createdMonotonic = env.clock k

theorem newState_created (env : Env T) (p : AcceptedPolicy T) (a : NewState F) {e : Engine T F}
    (hk : Keyed e) :
    ∃ k, e.clockReads ≤ k ∧ k < (newState env p a e).2.clockReads ∧
      (newState env p a e).1.createdMonotonic = env.clock k := by
  refine ⟨(evict p e).clockReads, (evict_frame p 0 hk).reads, ?_, ?_⟩
  · exact recalculate_reads ..
  · exact (recalculate_same ..).created

theorem createRuntimeState_spec (env : Env T) (p : AcceptedPolicy T) {event : Mapping F}
    (hkind : kindOf event = .processExec) (pid ppid uid : Int) (parent : Option PyStr)
    {e : Engine T F} (hk : Keyed e) :
    RuntimeCreated env p parent ppid e (createRuntimeState env p event pid ppid uid parent e).2
        (createRuntimeState env p event pid ppid uid parent e).1 ∧
      (createRuntimeState env p event pid ppid uid parent e).1.executablePath = none ∧
      (createRuntimeState env p event pid ppid uid parent e).1.execTimestampNs = none ∧
      (createRuntimeState env p event pid ppid uid parent e).1.occurrences
        .executableIdentifierMismatch = 0 := by
  have hfresh : FreshState p (runtimeNewState pid ppid uid parent)
      (newState env p (runtimeNewState pid ppid uid parent) e).1 :=
    newState_fresh (by simp [runtimeNewState]) le_rfl e
  obtain ⟨k, hk1, hk2, hk3⟩ :=
    newState_created env p (runtimeNewState pid ppid uid parent) hk
  have hocc : ∀ r, (newState env p (runtimeNewState pid ppid uid parent) e).1.occurrences r = 0 := by
    intro r
    simp [ExecutionState.occurrences, hfresh.occurrences]
  unfold createRuntimeState
  cases parent with
  | none =>
      exact ⟨⟨hfresh.settled, hfresh.status, hfresh.source, hfresh.preScore, hfresh.indicators,
        k, hk1, hk2, hk3⟩, hfresh.path, hfresh.execTimestamp, hocc _⟩
  | some id =>
      simp only [hkind, if_true]
      generalize hreads :
        (newState env p (runtimeNewState pid ppid uid (some id)) e).2.clockReads = reads at *
      obtain ⟨hset, hsame⟩ := applyRule_first env (childEvidence ppid id) hfresh.settled
        (hocc .childProcessExec) reads
      refine ⟨⟨hset, hsame.status.trans hfresh.status, hsame.source.trans hfresh.source,
        hsame.preScore.trans hfresh.preScore, ?_, k, hk1, ?_, hsame.created.trans hk3⟩,
        hsame.path.trans hfresh.path, hsame.execTimestamp.trans hfresh.execTimestamp, ?_⟩
      · rw [hsame.indicators, hfresh.indicators]
        rfl
      · exact hk2.trans_le (applyRule_reads ..)
      · rw [ExecutionState.occurrences, hsame.occurrences, hfresh.occurrences]
        rfl

/-- The event finds no state: it creates a runtime-only one, linked to its parent. -/
theorem exec_creates {pid ppid uid timestamp : Int} {event : Mapping F}
    (he : ExecEvent pid ppid uid timestamp event) (hpid : 0 < pid) {e : Engine T F} (hk : Keyed e)
    (hnone : (expire env p none e).2.states.get? pid = none) :
    ∃ s, liveAfter (ingestRuntimeEvent env p event e) pid = some s ∧
      RuntimeCreated env p (inheritedParent env p ppid e) ppid e
        (ingestRuntimeEvent env p event e).2 s := by
  have hpid' : ¬ pid ≤ 0 := by omega
  have hexp := expire_frame env p pid none hk
  have hparent := parentOf_frame env p pid ppid hexp.keyed
  obtain ⟨hcreated, hpath, hexec, hocc⟩ := createRuntimeState_spec env p he.kind_eq pid ppid uid
    (parentOf env p ppid (expire env p none e).2).1 hparent.keyed
  have hrun : runtimeState env p event (expire env p none e).2 =
      (.ok (some (createRuntimeState env p event pid ppid uid
        (parentOf env p ppid (expire env p none e).2).1
        (parentOf env p ppid (expire env p none e).2).2).1),
        (createRuntimeState env p event pid ppid uid
        (parentOf env p ppid (expire env p none e).2).1
        (parentOf env p ppid (expire env p none e).2).2).2) := by
    simp only [runtimeState, he.pid_eq, if_neg hpid', hnone, he.ppid_eq, he.uid_eq]
  obtain ⟨hreads, s', hlive, hact⟩ := exec_activates he hrun (createRuntimeState_pid ..) hexec
    hcreated.settled hocc
  obtain ⟨k, hk1, hk2, hk3⟩ := hcreated.created
  refine ⟨s', hlive, hact.settled, hact.status, hact.source.trans hcreated.source,
    hact.preScore.trans hcreated.preScore, ?_, k, ?_, hk2.trans_le hreads, hact.created.trans hk3⟩
  · rw [hact.indicators, hcreated.indicators, hpath]
    simp [mismatchIndicators, lexicallySame, inheritedParent]
  · exact (hexp.reads.trans hparent.reads).trans hk1

/-- The event finds the pending state of the record. -/
theorem exec_binds {pid ppid uid timestamp : Int} {event : Mapping F}
    (he : ExecEvent pid ppid uid timestamp event) (hpid : 0 < pid) {e : Engine T F} (hk : Keyed e)
    {r : Registration F} {s : ExecutionState T F}
    (hlive : (expire env p none e).2.states.get? pid = some s)
    (hs : FreshState p (r.newState pid) s) :
    ∃ s', liveAfter (ingestRuntimeEvent env p event e) pid = some s' ∧ Settled p s' ∧
      s'.status = .active ∧ s'.preExecutionScore = r.score ∧
      s'.runtimeIndicators = mismatchIndicators p r.executablePath
        (nonEmptyText event "executable_identifier") := by
  have hpid' : ¬ pid ≤ 0 := by omega
  have hrun : runtimeState env p event (expire env p none e).2 =
      (.ok (some s), (expire env p none e).2) := by
    simp only [runtimeState, he.pid_eq, if_neg hpid', hlive]
  have hkey : s.pid = pid := (expire_frame env p pid none hk).keyed pid s hlive
  have hocc : s.occurrences .executableIdentifierMismatch = 0 := by
    simp [ExecutionState.occurrences, hs.occurrences]
  obtain ⟨-, s', hlive', hact⟩ := exec_activates he hrun hkey hs.execTimestamp hs.settled hocc
  refine ⟨s', hlive', hact.settled, hact.status, hact.preScore.trans hs.preScore, ?_⟩
  rw [hact.indicators, hs.indicators, hs.path, List.nil_append]
  rfl

/-- The record finds the runtime-only state of the event, within the window. -/
theorem register_binds {pid ppid : Int} {record : Mapping F} {r : Registration F}
    (hr : AllowedRecord pid record r) (hpid : 0 < pid) {e : Engine T F} (hk : Keyed e)
    {parent : Option PyStr} {s : ExecutionState T F}
    (hlive : (expire env p none e).2.states.get? pid = some s)
    {e₀ : Engine T F} (hs : RuntimeCreated env p parent ppid e₀ e s)
    (hwindow : ∀ i j, e₀.clockReads ≤ i → i ≤ j →
      j < (registerPreExecution env p record e).2.clockReads →
      env.clock j - env.clock i ≤ p.toPolicy.lateBindingWindowSeconds) :
    ∃ s', liveAfter (registerPreExecution env p record e) pid = some s' ∧ Settled p s' ∧
      s'.status = .active ∧ s'.preExecutionScore = r.score ∧
      s'.runtimeIndicators = childIndicators p ppid parent := by
  have hpid' : ¬ pid ≤ 0 := by omega
  have hexp := expire_frame env p pid none hk
  have hkey : s.pid = pid := hexp.keyed pid s hlive
  have hlive' : (expire env p none e).2.readClock.states.get? pid = some s := hlive
  obtain ⟨k, hk1, hk2, hk3⟩ := hs.created
  have hle : k ≤ (expire env p none e).2.clockReads := hk2.le.trans hexp.reads
  have hscore := registrationOf_score_nonneg hr.fields_eq
  -- the window covers the reading the record is bound at
  have hbind : lateBind p (env.clock (expire env p none e).2.clockReads) s = true := by
    have hlast : (expire env p none e).2.clockReads <
        (registerPreExecution env p record e).2.clockReads := by
      simp only [registerPreExecution, hr.pid_eq, if_neg hpid', hr.fields_eq]
      have hread := readClock_frame pid hexp.keyed
      exact (bindRegistration_frame (show pid ≠ pid + 1 by omega) r _ hread.keyed).reads
    simp only [lateBind, hs.source, hs.status, hk3, hwindow k _ hk1 hle hlast, decide_true,
      Bool.true_or, Bool.and_self]
  simp only [liveAfter, registerPreExecution, hr.pid_eq, if_neg hpid', hr.fields_eq,
    bindRegistration, hlive', if_pos hbind]
  generalize (expire env p none e).2.readClock.clockReads = reads
  generalize env.clock (expire env p none e).2.clockReads = now
  have hstatus : (bindLate r now s).status = .active := by simp [bindLate, hr.allowed, hs.status]
  have hsame : SameEvidence (bindLate r now s)
      (recalculate env p (py "FANOTIFY_LATE_BINDING") (bindLate r now s) reads).1 :=
    recalculate_same ..
  have hkey' : (recalculate env p (py "FANOTIFY_LATE_BINDING") (bindLate r now s) reads).1.pid
      = pid := (recalculate_grows ..).pid.trans hkey
  refine ⟨_, ?_, ?_, hsame.status.trans hstatus, hsame.preScore, hsame.indicators.trans hs.indicators⟩
  · rw [← hkey']
    exact get?_put_self _ _
  · refine recalculate_settled env p _ reads (by rw [hstatus]; decide) hs.settled.action ?_
    rw [hs.settled.combined, hs.preScore]
    simp only [bindLate, combinedOf]
    omega

/-! ## Both orders -/

/-- Every call is about at most one process. -/
theorem exists_otherProcess (c : Call T F) : ∃ pid, OtherProcess pid c := by
  have hother : ∀ x : Except PyExc Int, ∃ pid, x ≠ .ok pid := by
    intro x
    cases x with
    | error x => exact ⟨0, by simp⟩
    | ok n => exact ⟨n + 1, by simp⟩
  cases c with
  | registerPreExecution record => exact hother _
  | ingestRuntimeEvent event => exact hother _
  | expire now => exact ⟨0, trivial⟩
  | recordActionResult pid _ _ => exact ⟨pid + 1, by simp [OtherProcess]⟩

theorem runCalls_keyed (env : Env T) (p : AcceptedPolicy T) (calls : List (Call T F))
    {e : Engine T F} (h : Keyed e) : Keyed (runCalls env p calls e) := by
  induction calls generalizing e with
  | nil => exact h
  | cons c calls ih =>
      obtain ⟨pid, hc⟩ := exists_otherProcess c
      exact ih (perform_frame env p hc h).keyed

theorem registerPreExecution_keyed (env : Env T) (p : AcceptedPolicy T) (record : Mapping F)
    {e : Engine T F} (h : Keyed e) : Keyed (registerPreExecution env p record e).2 :=
  runCalls_keyed env p [.registerPreExecution record] h

theorem ingestRuntimeEvent_keyed (env : Env T) (p : AcceptedPolicy T) (event : Mapping F)
    {e : Engine T F} (h : Keyed e) : Keyed (ingestRuntimeEvent env p event e).2 :=
  runCalls_keyed env p [.ingestRuntimeEvent event] h

/-- The state of `pid` has not been evicted and does not expire when the next call starts. -/
def Survives (env : Env T) (p : AcceptedPolicy T) (pid : Int) (e : Engine T F) : Prop :=
  (expire env p none e).2.states.get? pid ≠ none

section Orders

variable (env : Env T) (p : AcceptedPolicy T) (record event : Mapping F)

/-- The engine before the second call of the order record, then event. -/
def afterRecord (mid : List (Call T F)) (e : Engine T F) : Engine T F :=
  runCalls env p mid (registerPreExecution env p record e).2

/-- The engine before the second call of the order event, then record. -/
def afterEvent (mid : List (Call T F)) (e : Engine T F) : Engine T F :=
  runCalls env p mid (ingestRuntimeEvent env p event e).2

end Orders

/-- What is live before the second call is what the first call left, untouched. -/
theorem survives_same {pid : Int} {mid : List (Call T F)} (hmid : ∀ c ∈ mid, OtherProcess pid c)
    {e : Engine T F} (hk : Keyed e) {s : ExecutionState T F} (hs : e.states.get? pid = some s)
    (hsurv : Survives env p pid (runCalls env p mid e)) :
    (expire env p none (runCalls env p mid e)).2.states.get? pid = some s := by
  have hframe := runCalls_frame env p hmid hk
  have hboth := hframe.trans (expire_frame env p pid none hframe.keyed)
  rcases hboth.entry with h | h
  · rw [h, hs]
  · exact absurd h hsurv

section Commute

variable {pid ppid uid timestamp : Int} {record event : Mapping F} {r : Registration F}
variable (hr : AllowedRecord pid record r) (hx : ExecEvent pid ppid uid timestamp event)
variable (hpid : 0 < pid) {e : Engine T F} (hk : Keyed e) (hnone : e.states.get? pid = none)
variable {mid : List (Call T F)} (hmid : ∀ c ∈ mid, OtherProcess pid c)

include hr hx hpid hk hnone hmid

/-- The record first: the event activates the pending state, or a state of its own if the pending
    one is gone. -/
theorem record_then_event (env : Env T) :
    ∃ s, liveAfter (ingestRuntimeEvent env p event (afterRecord env p record mid e)) pid = some s ∧
      Settled p s ∧ s.status = .active ∧
      (Survives env p pid (afterRecord env p record mid e) →
        s.preExecutionScore = r.score ∧ s.runtimeIndicators =
          mismatchIndicators p r.executablePath (nonEmptyText event "executable_identifier")) ∧
      (¬ Survives env p pid (afterRecord env p record mid e) →
        s.preExecutionScore = 0 ∧ s.runtimeIndicators =
          childIndicators p ppid (inheritedParent env p ppid (afterRecord env p record mid e))) := by
  obtain ⟨s₀, hlive₀, hfresh⟩ := register_creates hr hpid (expire_none_of_none env p hk hnone)
  have hk₀ := registerPreExecution_keyed env p record hk
  have hk₁ : Keyed (afterRecord env p record mid e) := (runCalls_frame env p hmid hk₀).keyed
  by_cases hsurv : Survives env p pid (afterRecord env p record mid e)
  · have hlive₁ := survives_same hmid hk₀ hlive₀ hsurv
    obtain ⟨s, hlive, hset, hstatus, hpre, hind⟩ := exec_binds hx hpid hk₁ hlive₁ hfresh
    exact ⟨s, hlive, hset, hstatus, fun _ => ⟨hpre, hind⟩, fun h => absurd hsurv h⟩
  · have hnone₁ := not_ne_iff.1 hsurv
    obtain ⟨s, hlive, hs⟩ := exec_creates hx hpid hk₁ hnone₁
    exact ⟨s, hlive, hs.settled, hs.status, fun h => absurd h hsurv,
      fun _ => ⟨hs.preScore, hs.indicators⟩⟩

/-- The event first: the record is bound late, or starts a pending state of its own if the runtime
    state is gone. -/
theorem event_then_record
    (hwindow : ∀ i j, e.clockReads ≤ i → i ≤ j →
      j < (registerPreExecution env p record (afterEvent env p event mid e)).2.clockReads →
      env.clock j - env.clock i ≤ p.toPolicy.lateBindingWindowSeconds) :
    ∃ s, liveAfter (registerPreExecution env p record (afterEvent env p event mid e)) pid = some s ∧
      Settled p s ∧
      (Survives env p pid (afterEvent env p event mid e) →
        s.status = .active ∧ s.preExecutionScore = r.score ∧
          s.runtimeIndicators = childIndicators p ppid (inheritedParent env p ppid e)) ∧
      (¬ Survives env p pid (afterEvent env p event mid e) → s.status = .pendingExec) := by
  obtain ⟨s₀, hlive₀, hcreated⟩ := exec_creates hx hpid hk (expire_none_of_none env p hk hnone)
  have hk₀ := ingestRuntimeEvent_keyed env p event hk
  have hframe := runCalls_frame env p hmid hk₀
  have hk₁ : Keyed (afterEvent env p event mid e) := hframe.keyed
  by_cases hsurv : Survives env p pid (afterEvent env p event mid e)
  · have hlive₁ := survives_same hmid hk₀ hlive₀ hsurv
    obtain ⟨k, hk1, hk2, hk3⟩ := hcreated.created
    have hcreated₁ : RuntimeCreated env p (inheritedParent env p ppid e) ppid e
        (afterEvent env p event mid e) s₀ :=
      { hcreated with created := ⟨k, hk1, hk2.trans_le hframe.reads, hk3⟩ }
    obtain ⟨s, hlive, hset, hrest⟩ := register_binds hr hpid hk₁ hlive₁ hcreated₁ hwindow
    exact ⟨s, hlive, hset, fun _ => hrest, fun h => absurd hsurv h⟩
  · have hnone₁ := not_ne_iff.1 hsurv
    obtain ⟨s, hlive, hfresh⟩ := register_creates hr hpid hnone₁
    refine ⟨s, hlive, hfresh.settled, fun h => absurd h hsurv, fun _ => ?_⟩
    rw [hfresh.status]
    simp [Registration.newState, hr.allowed]

end Commute

/-- An identifier mismatch and a child exec never give the same indicators. -/
theorem mismatch_perm_child {path identifier parent : Option PyStr} {ppid : Int} :
    (mismatchIndicators (F := F) p path identifier).Perm (childIndicators p ppid parent) ↔
      lexicallySame path identifier = true ∧ parent = none := by
  unfold mismatchIndicators
  cases parent with
  | none => split <;> simp_all [childIndicators]
  | some id => split <;> simp_all [childIndicators, firstIndicator]

theorem child_perm_child {parent parent' : Option PyStr} {ppid : Int} :
    (childIndicators (F := F) p ppid parent).Perm (childIndicators p ppid parent') ↔
      parent = parent' := by
  cases parent <;> cases parent' <;>
    simp [childIndicators, firstIndicator, childEvidence]

/-- **When late binding commutes.** In a reachable engine `e` without a state for `pid`, process an
    allowed record and an exec event for `pid` in both orders, each order with its own environment
    and any calls for other processes in between, the event-first order within the late-binding
    window. Both orders end with a state of `pid`, and the two agree exactly when

    * in the event-first order the runtime state is still live when the record arrives, and
    * either the pending state of the record-first order is still live when the event arrives, the
      path and the identifier are lexically the same, and the event finds no parent to inherit from;
      or that pending state is gone, the record scores zero and the event finds the same parent
      in both orders. -/
theorem late_binding_commutes_iff (env₀ env₁ env₂ : Env T) (calls mid₁ mid₂ : List (Call T F))
    (e : Engine T F) (he : e = runCalls env₀ p calls {}) {pid ppid uid timestamp : Int}
    {record event : Mapping F} {r : Registration F} (hpid : 0 < pid)
    (hnone : e.states.get? pid = none) (hr : AllowedRecord pid record r)
    (hx : ExecEvent pid ppid uid timestamp event)
    (hmid₁ : ∀ c ∈ mid₁, OtherProcess pid c) (hmid₂ : ∀ c ∈ mid₂, OtherProcess pid c)
    (hwindow : ∀ i j, e.clockReads ≤ i → i ≤ j →
      j < (registerPreExecution env₂ p record (afterEvent env₂ p event mid₂ e)).2.clockReads →
      env₂.clock j - env₂.clock i ≤ p.toPolicy.lateBindingWindowSeconds) :
    ∃ s₁ s₂,
      liveAfter (ingestRuntimeEvent env₁ p event (afterRecord env₁ p record mid₁ e)) pid
        = some s₁ ∧
      liveAfter (registerPreExecution env₂ p record (afterEvent env₂ p event mid₂ e)) pid
        = some s₂ ∧
      (outcome s₁ = outcome s₂ ↔
        Survives env₂ p pid (afterEvent env₂ p event mid₂ e) ∧
          ((Survives env₁ p pid (afterRecord env₁ p record mid₁ e) ∧
              lexicallySame r.executablePath (nonEmptyText event "executable_identifier") = true ∧
              inheritedParent env₂ p ppid e = none) ∨
            (¬ Survives env₁ p pid (afterRecord env₁ p record mid₁ e) ∧ r.score = 0 ∧
              inheritedParent env₁ p ppid (afterRecord env₁ p record mid₁ e) =
                inheritedParent env₂ p ppid e))) := by
  have hk : Keyed e := he ▸ runCalls_keyed env₀ p calls (fun pid s h => absurd h (by simp))
  obtain ⟨s₁, hlive₁, hset₁, hstatus₁, hsurv₁, hlost₁⟩ :=
    record_then_event hr hx hpid hk hnone hmid₁ env₁
  obtain ⟨s₂, hlive₂, hset₂, hsurv₂, hlost₂⟩ :=
    event_then_record hr hx hpid hk hnone hmid₂ hwindow
  refine ⟨s₁, s₂, hlive₁, hlive₂, ?_⟩
  rw [hset₁.outcome_eq_iff hset₂, hstatus₁]
  by_cases hs₂ : Survives env₂ p pid (afterEvent env₂ p event mid₂ e)
  · obtain ⟨hstatus₂, hpre₂, hind₂⟩ := hsurv₂ hs₂
    rw [hstatus₂, hpre₂, hind₂]
    by_cases hs₁ : Survives env₁ p pid (afterRecord env₁ p record mid₁ e)
    · obtain ⟨hpre₁, hind₁⟩ := hsurv₁ hs₁
      rw [hpre₁, hind₁, mismatch_perm_child]
      simp only [hs₁, hs₂, true_and, not_true, false_and, or_false]
    · obtain ⟨hpre₁, hind₁⟩ := hlost₁ hs₁
      rw [hpre₁, hind₁, child_perm_child, @eq_comm _ 0 r.score]
      simp only [hs₁, hs₂, true_and, not_false_iff, false_and, false_or]
  · rw [hlost₂ hs₂]
    simp only [hs₂, false_and, reduceCtorEq]

/-! ### The rule that is evaluated in one order only -/

/-- A clock that stands still. -/
def stillEnv : Env ℤ := { sampleEnv with clock := fun _ => 0 }

/-- What the record of process 7 is read as. -/
def sampleRegistration : Registration SampleFloat :=
  { score := 30
    finalAction := py "ALLOW"
    requested := py "UNKNOWN"
    safeIndicators := []
    executablePath := some (py "/bin/a") }

theorem sampleRecord_allowed : AllowedRecord 7 sampleRecord sampleRegistration :=
  ⟨rfl, rfl, rfl⟩

theorem sampleExec_event : ExecEvent 7 0 0 5 sampleExec := ⟨rfl, rfl, rfl, rfl, rfl, by decide⟩

/-- Process 7 is allowed as `/bin/a` and executes as `/bin/b`. Record first, the mismatch scores 20
    and alerts; event first, it is never evaluated. -/
theorem late_binding_order_matters :
    AllowedRecord 7 sampleRecord sampleRegistration ∧ ExecEvent 7 0 0 5 sampleExec ∧
    (∀ i j, stillEnv.clock j - stillEnv.clock i ≤
      acceptedDefaultPolicy.toPolicy.lateBindingWindowSeconds) ∧
    (liveAfter (ingestRuntimeEvent stillEnv acceptedDefaultPolicy sampleExec
        (registerPreExecution stillEnv acceptedDefaultPolicy sampleRecord {}).2) 7).map
      (fun s => (s.combinedScore, s.recommendedAction)) = some (50, .alert) ∧
    (liveAfter (registerPreExecution stillEnv acceptedDefaultPolicy sampleRecord
        (ingestRuntimeEvent stillEnv acceptedDefaultPolicy sampleExec {}).2) 7).map
      (fun s => (s.combinedScore, s.recommendedAction)) = some (30, .continueMonitoring) :=
  ⟨sampleRecord_allowed, sampleExec_event, by simp [stillEnv, acceptedDefaultPolicy, defaultPolicy],
    by decide, by decide⟩

/-- The exec event of process 7 under a name that is lexically the record's path. -/
def matchingExec : Mapping SampleFloat :=
  [(py "event_type", .str (py "PROCESS_EXEC")), (py "pid", .int 7), (py "timestamp_ns", .int 5),
    (py "executable_identifier", .str (py "/bin/./a"))]

theorem late_binding_commutes_matching : ∃ s₁ s₂,
    liveAfter (ingestRuntimeEvent stillEnv acceptedDefaultPolicy matchingExec
      (afterRecord stillEnv acceptedDefaultPolicy sampleRecord [] {})) 7 = some s₁ ∧
    liveAfter (registerPreExecution stillEnv acceptedDefaultPolicy sampleRecord
      (afterEvent stillEnv acceptedDefaultPolicy matchingExec [] {})) 7 = some s₂ ∧
    outcome s₁ = outcome s₂ := by
  obtain ⟨s₁, s₂, h₁, h₂, hiff⟩ := late_binding_commutes_iff (p := acceptedDefaultPolicy) stillEnv
    stillEnv stillEnv [] [] [] {} rfl (by decide) rfl sampleRecord_allowed
    (⟨rfl, rfl, rfl, rfl, rfl, by decide⟩ : ExecEvent 7 0 0 5 matchingExec)
    (fun c hc => absurd hc (by simp)) (fun c hc => absurd hc (by simp))
    (fun i j _ _ _ => by simp [stillEnv, acceptedDefaultPolicy, defaultPolicy])
  refine ⟨s₁, s₂, h₁, h₂, hiff.2 ⟨?_, .inl ⟨?_, ?_, ?_⟩⟩⟩
  · exact fun h => absurd (congrArg Option.isSome h) (by decide)
  · exact fun h => absurd (congrArg Option.isSome h) (by decide)
  · decide
  · decide

end Elyra.Correlation
