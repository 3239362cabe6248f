import Elyra.Correlation.Denial

set_option autoImplicit false
set_option linter.unusedSectionVars false

/-! # Process ids that are used again

The kernel gives the id of an exited process to a new one, and the engine has to keep the two apart:
the exec of the new process starts a new generation. The generation check compares the timestamps of
two execs, so it only sees a process whose own exec was observed. The state of a process that was
first seen through a write, a connection or a fanotify record has no exec timestamp, and if it is
still in the table the new process inherits it. This file says exactly when the check works. -/

namespace Elyra.Correlation

open Elyra.Python

variable {T F : Type} [Zero T] [Min T] [Sub T] [LE T] [DecidableLE T] [LT T] [DecidableLT T]
variable [FloatNum F]
variable {env : Env T} {p : AcceptedPolicy T}

/-! ## A state that was created by its exec -/

/-- The state carries nothing but what its own exec event says: no file, rename, endpoint or
    pre-execution evidence, at most the indicator of the exec itself, and the action its own score
    asks for. -/
structure Untainted (p : AcceptedPolicy T) (ppid : Int) (s : ExecutionState T F) : Prop where
  files : s.distinctFiles = []
  renames : s.renameIdentifiers = []
  endpoints : s.outboundConnections = []
  preScore : s.preExecutionScore = 0
  preIndicators : s.preExecutionIndicators = []
  indicators : ∃ parent, s.runtimeIndicators = childIndicators p ppid parent
  combined : s.combinedScore = combinedOf 0 s.runtimeIndicators
  action : s.recommendedAction = scoreAction p s.combinedScore

/-- An untainted state between its creation and the end of its exec event. -/
structure Newborn (p : AcceptedPolicy T) (ppid : Int) (s : ExecutionState T F) : Prop
    extends Untainted p ppid s where
  path : s.executablePath = none
  exec : s.execTimestampNs = none

/-- The evidence an exec event does not add to. -/
structure NoEvidence (s : ExecutionState T F) : Prop where
  files : s.distinctFiles = []
  renames : s.renameIdentifiers = []
  endpoints : s.outboundConnections = []
  preIndicators : s.preExecutionIndicators = []

theorem NoEvidence.recalculate {s : ExecutionState T F} (h : NoEvidence s) (reason : PyStr)
    (reads : Nat) : NoEvidence (recalculate env p reason s reads).1 := by
  obtain ⟨ts, heq⟩ := recalculate_fst env p reason s reads
  rw [heq]
  exact ⟨h.files, h.renames, h.endpoints, h.preIndicators⟩

theorem NoEvidence.applyRule {s : ExecutionState T F} (h : NoEvidence s) (r : Rule)
    (evidence : Json F) (reads : Nat) : NoEvidence (applyRule env p r evidence s reads).1 := by
  unfold Elyra.Correlation.applyRule
  dsimp only
  split
  · exact h
  · refine NoEvidence.recalculate ?_ r.name reads
    exact ⟨h.files, h.renames, h.endpoints, h.preIndicators⟩

theorem createRuntimeState_noEvidence (event : Mapping F) (pid ppid uid : Int)
    (parent : Option PyStr) (e : Engine T F) :
    NoEvidence (createRuntimeState env p event pid ppid uid parent e).1 := by
  have hnew : NoEvidence (newState env p (runtimeNewState pid ppid uid parent) e).1 :=
    NoEvidence.recalculate ⟨rfl, rfl, rfl, rfl⟩ _ _
  unfold createRuntimeState
  dsimp only
  split
  · exact hnew
  · split
    · exact hnew.applyRule _ _ _
    · exact hnew

/-- What an exec event creates. -/
theorem createRuntimeState_newborn (env : Env T) (p : AcceptedPolicy T) {event : Mapping F}
    (hkind : kindOf event = .processExec) (pid ppid uid : Int) (parent : Option PyStr)
    {e : Engine T F} (hk : Keyed e) :
    Newborn p ppid (createRuntimeState env p event pid ppid uid parent e).1 := by
  obtain ⟨hcreated, hpath, hexec, -⟩ := createRuntimeState_spec env p hkind pid ppid uid parent hk
  have hno : NoEvidence (createRuntimeState env p event pid ppid uid parent e).1 :=
    createRuntimeState_noEvidence ..
  refine ⟨⟨hno.files, hno.renames, hno.endpoints, hcreated.preScore, hno.preIndicators,
    ⟨parent, hcreated.indicators⟩, ?_, hcreated.settled.action⟩, hpath, hexec⟩
  rw [hcreated.settled.combined, hcreated.preScore]

theorem Newborn.touch {ppid : Int} {s : ExecutionState T F} (h : Newborn p ppid s)
    (event : Mapping F) (now : T) : Newborn p ppid (touch event now s).2 := by
  unfold Elyra.Correlation.touch
  dsimp only
  split
  · exact { h with }
  · split <;> exact { h with }

/-- The end of the exec event: without a path there is no mismatch to score. -/
theorem Newborn.finish {ppid : Int} {s : ExecutionState T F} (h : Newborn p ppid s) (env : Env T)
    (event : Mapping F) (timestamp : Int) (reason : PyStr) (reads reads' : Nat) :
    Untainted p ppid (recalculate env p reason (observeExec env p event timestamp s reads).1
      reads').1 := by
  have hmark : (observeExec env p event timestamp s reads).1 = markExec event timestamp s := by
    simp [observeExec, markExec, lexicallySame, h.path]
  rw [hmark]
  have hset := recalculate_settled env p reason (s := markExec event timestamp s) reads'
    (by simp [markExec]) h.action (h.combined.trans_le (by simp [markExec, h.preScore]))
  have hno : NoEvidence (recalculate env p reason (markExec event timestamp s) reads').1 := by
    refine NoEvidence.recalculate ?_ _ _
    exact ⟨h.files, h.renames, h.endpoints, h.preIndicators⟩
  have hsame : SameEvidence (markExec event timestamp s)
      (recalculate env p reason (markExec event timestamp s) reads').1 := recalculate_same ..
  have hpre := hsame.preScore.trans h.preScore
  exact ⟨hno.files, hno.renames, hno.endpoints, hpre, hno.preIndicators,
    hsame.indicators ▸ h.indicators, hpre ▸ hset.combined, hset.action⟩

/-! ## New ids and generations -/

/-- The state is of another generation than every known state, and the last one of `pid`. -/
def NewTo (e : Engine T F) (pid : Int) (s : ExecutionState T F) : Prop :=
  ∀ x ∈ e.known, s.correlationId ≠ x.correlationId ∧ (x.pid = pid → x.generation < s.generation)

/-- What is new to a later engine is new to the earlier one. -/
theorem NewTo.of_grows {e e' : Engine T F} {pid : Int} {s s' : ExecutionState T F}
    (h : NewTo e' pid s) (he : EngineGrows e e') (hs : Grows s s') : NewTo e pid s' := by
  intro x hx
  obtain ⟨x', hx', hgrow⟩ := he x hx
  have hnew := h x' hx'
  rw [hgrow.correlationId, hgrow.pid, hgrow.generation] at hnew
  rw [hs.correlationId, hs.generation]
  exact hnew

/-- A created state is numbered after every state its process had, and has an id of its own. -/
theorem newState_is_new (hid : Function.Injective env.idFactory) {a : NewState F}
    {e : Engine T F} (hinv : EngineInv env p e)
    (ha : a.source = .runtimeOnly → a.preExecutionScore = 0)
    (hnone : e.states.get? a.pid = none) : NewTo e a.pid (newState env p a e).1 := by
  intro s hs
  obtain ⟨-, hcid, hgen⟩ := newState_fields env p e ha
  obtain ⟨hinv', hgrows⟩ := evict_keeps env p e hinv
  have hfree := get?_evict_of_none (p := p) hnone
  obtain ⟨s', hs', hgrow⟩ := hgrows s hs
  constructor
  · rw [hcid, ← hgrow.correlationId]
    obtain ⟨i, hi, hsi⟩ := hinv'.issued s' hs'
    rw [hsi]
    exact fun h => absurd (hid h) (by omega)
  · intro hpid
    have hpid' : s'.pid = a.pid := hgrow.pid.trans hpid
    -- the process has no live state, so its states are the archived ones, numbered from 1
    have hmem : s'.generation ∈ (evict p e).generationsOf a.pid := by
      simp only [Engine.generationsOf, hfree, Option.toList_none, List.append_nil]
      refine List.mem_map_of_mem (List.mem_filter.2 ⟨?_, by simpa using hpid'⟩)
      rcases List.mem_append.1 hs' with h | h
      · exact h
      · obtain ⟨kv, hkv, rfl⟩ := List.mem_map.1 h
        have hget := Dict.mem_items.1 hkv
        rw [← hinv'.live _ _ hget, hpid', hfree] at hget
        exact absurd hget (by simp)
    rw [hinv'.generations, List.mem_range'_1] at hmem
    rw [hgen, ← hgrow.generation, Engine.nextGeneration]
    omega

/-! ## The exec of a process id -/

theorem createRuntimeState_grows (event : Mapping F) (pid ppid uid : Int) (parent : Option PyStr)
    (e : Engine T F) :
    Grows (newState env p (runtimeNewState pid ppid uid parent) e).1
      (createRuntimeState env p event pid ppid uid parent e).1 := by
  have hrefl := Grows.refl (newState env p (runtimeNewState pid ppid uid parent : NewState F) e).1
  unfold createRuntimeState
  dsimp only
  split
  · exact hrefl
  · split
    · exact (applyRule_advance (p := p) (F := F) ..).grows
    · exact hrefl

/-- An event of a process without a state creates one. -/
theorem runtimeState_creates (hid : Function.Injective env.idFactory) {event : Mapping F}
    {pid : Int} (hpid : pidOf event = .ok pid) {e e' : Engine T F} (hinv : EngineInv env p e)
    (hnone : e.states.get? pid = none) {s : ExecutionState T F}
    (h : runtimeState env p event e = (.ok (some s), e')) :
    s.pid = pid ∧ (kindOf event = .processExec → ∃ ppid, Newborn p ppid s) ∧ NewTo e pid s := by
  simp only [runtimeState, hpid, hnone] at h
  split at h
  · exact absurd h (by simp)
  · split at h
    · exact absurd h (by simp)
    · next ppid _ =>
      split at h
      · exact absurd h (by simp)
      · next uid _ =>
        simp only [Prod.mk.injEq, Except.ok.injEq, Option.some.injEq] at h
        obtain ⟨hkeep, hstates⟩ := parentOf_keeps env p ppid e
        obtain ⟨hinv', hgrows⟩ := hkeep hinv
        have hnone' : (parentOf env p ppid e).2.states.get? pid = none := by rw [hstates, hnone]
        generalize parentOf env p ppid e = parent at *
        rw [← h.1]
        refine ⟨createRuntimeState_pid .., fun hkind => ⟨ppid, createRuntimeState_newborn env p hkind
          _ _ _ _ hinv'.live⟩, ?_⟩
        have hnew := newState_is_new hid (a := (runtimeNewState pid ppid uid parent.1 : NewState F))
          hinv' (fun _ => rfl) hnone'
        exact hnew.of_grows hgrows (createRuntimeState_grows ..)

/-- The answer of an exec event, once the generation check has left a state. -/
theorem exec_answer {event : Mapping F} (hkind : kindOf event = .processExec) {timestamp : Int}
    (htime : intOr event "timestamp_ns" 0 = .ok timestamp) {now : T} {s s' s₁ : ExecutionState T F}
    {e e' e₁ : Engine T F}
    (hrep : replaceGeneration env p event timestamp s e = (.ok (some s'), e'))
    (h : ingestKind env p event now s e = (.ok (.ingested s₁), e₁)) :
    e₁.states.get? s'.pid = some s₁ ∧ Grows s' s₁ ∧
      ∃ reads reads', s₁ = (recalculate env p (eventReason event)
        (observeExec env p event timestamp s' reads).1 reads').1 := by
  have hgrow : Grows s' (observeExec env p event timestamp s' e'.clockReads).1 :=
    (observeExec_advance (p := p) ..).grows
  simp only [ingestKind, hkind, htime, hrep] at h
  have hlive := finishIngest_live env p event
    (observeExec env p event timestamp s' e'.clockReads).1
    (observeExec env p event timestamp s' e'.clockReads).2 e'
  rw [h, hgrow.pid] at hlive
  simp only [finishIngest, Prod.mk.injEq, Except.ok.injEq, Answer.ingested.injEq] at h
  refine ⟨by rw [← h.1]; exact hlive.trans (by rw [h.1]), ?_, _, _, h.1.symm⟩
  rw [← h.1]
  exact hgrow.trans (recalculate_grows ..)

theorem replaceGeneration_kept {event : Mapping F} {timestamp : Int} {s : ExecutionState T F}
    (hkept : ∀ previous, s.execTimestampNs = some previous → timestamp ≤ previous)
    (e : Engine T F) : replaceGeneration env p event timestamp s e = (.ok (some s), e) := by
  unfold replaceGeneration
  split
  · rfl
  · next previous hprev => rw [if_neg (not_lt.2 (hkept previous hprev))]

/-- The exec branch on a state with an earlier exec: the state is archived and a new one created. -/
theorem exec_replaces (hid : Function.Injective env.idFactory) {event : Mapping F}
    (hkind : kindOf event = .processExec) {pid timestamp : Int} (hpid : pidOf event = .ok pid)
    (htime : intOr event "timestamp_ns" 0 = .ok timestamp) {now : T} {e e' : Engine T F}
    (hinv : EngineInv env p e) {s s₁ : ExecutionState T F} (hspid : s.pid = pid)
    (hprev : ∃ previous, s.execTimestampNs = some previous ∧ previous < timestamp)
    (h : ingestKind env p event now s e = (.ok (.ingested s₁), e')) :
    e'.states.get? pid = some s₁ ∧ (∃ ppid, Untainted p ppid s₁) ∧ NewTo e pid s₁ := by
  obtain ⟨previous, hprev, hlt⟩ := hprev
  have hrep : replaceGeneration env p event timestamp s e =
      runtimeState env p event (e.archive s.pid (py "PID_EXEC_GENERATION_REPLACED")) := by
    simp only [replaceGeneration, hprev, if_pos hlt]
  obtain ⟨hinv', hgrows⟩ := archive_keeps e s.pid (py "PID_EXEC_GENERATION_REPLACED") hinv
  have hnone := get?_archive_self e s.pid (py "PID_EXEC_GENERATION_REPLACED")
  generalize e.archive s.pid (py "PID_EXEC_GENERATION_REPLACED") = e₂ at *
  -- the answer is a state, so creating it did not raise
  cases hrun : runtimeState env p event e₂ with
  | mk r e₃ =>
      have h' := h
      simp only [ingestKind, hkind, htime, hrep, hrun] at h'
      split at h'
      · exact absurd h' (by simp)
      · exact absurd h' (by simp)
      · next s₃ e₄ heq =>
        obtain ⟨hspid₃, hborn, hnew⟩ := runtimeState_creates hid hpid hinv' (hspid ▸ hnone)
          (hrun.trans heq)
        obtain ⟨ppid, hborn⟩ := hborn hkind
        obtain ⟨hs₁, hgrow, reads, reads', hans⟩ := exec_answer hkind htime
          (hrep.trans (hrun.trans heq)) h
        refine ⟨hspid₃ ▸ hs₁, ⟨ppid, ?_⟩, hnew.of_grows hgrows hgrow⟩
        rw [hans]
        exact hborn.finish env event timestamp _ reads reads'

/-- An exec event whose process has no state: the state it creates carries nothing. -/
theorem exec_without_state (hid : Function.Injective env.idFactory) {event : Mapping F}
    (hkind : kindOf event = .processExec) {pid timestamp : Int} (hpid : pidOf event = .ok pid)
    (htime : intOr event "timestamp_ns" 0 = .ok timestamp) {e e' : Engine T F}
    (hinv : EngineInv env p e) (hnone : (expire env p none e).2.states.get? pid = none)
    {s₁ : ExecutionState T F}
    (h : ingestRuntimeEvent env p event e = (.ok (.ingested s₁), e')) :
    e'.states.get? pid = some s₁ ∧ (∃ ppid, Untainted p ppid s₁) ∧ NewTo e pid s₁ := by
  obtain ⟨hinv₁, hgrows₁⟩ := expire_keeps none e hinv
  unfold ingestRuntimeEvent at h
  dsimp only at h
  split at h
  · exact absurd h (by simp)
  · exact absurd h (by simp)
  · next s e₂ hrun =>
    obtain ⟨hspid, hborn, hnew⟩ := runtimeState_creates hid hpid hinv₁ hnone hrun
    obtain ⟨ppid, hborn⟩ := hborn hkind
    split at h
    · exact absurd h (by simp)
    · next s' ht =>
      have hborn' := hborn.touch event (env.clock e₂.clockReads)
      have htouch := (touch_advance (p := p) event (env.clock e₂.clockReads) s).grows
      rw [ht] at hborn' htouch
      have hexec : s'.execTimestampNs = none := hborn'.exec
      obtain ⟨hs₁, hgrow, reads, reads', hans⟩ := exec_answer hkind htime
        (replaceGeneration_kept (fun previous hprev => absurd hprev (by simp [hexec])) _) h
      rw [htouch.pid, hspid] at hs₁
      refine ⟨hs₁, ⟨ppid, ?_⟩, hnew.of_grows hgrows₁ (htouch.trans hgrow)⟩
      rw [hans]
      exact hborn'.finish env event timestamp _ reads reads'

/-- An exec event that finds a state of its process: unless an earlier exec of that state was
    observed, the event only activates it. -/
theorem exec_with_state (hid : Function.Injective env.idFactory) {event : Mapping F}
    (hkind : kindOf event = .processExec) {pid timestamp : Int} (hpid : pidOf event = .ok pid)
    (htime : intOr event "timestamp_ns" 0 = .ok timestamp) {e e' : Engine T F}
    (hinv : EngineInv env p e) {s : ExecutionState T F}
    (hlive : (expire env p none e).2.states.get? pid = some s) {s₁ : ExecutionState T F}
    (h : ingestRuntimeEvent env p event e = (.ok (.ingested s₁), e')) :
    e'.states.get? pid = some s₁ ∧
      ((∀ previous, s.execTimestampNs = some previous → timestamp ≤ previous) →
        s₁.correlationId = s.correlationId) ∧
      ((∃ previous, s.execTimestampNs = some previous ∧ previous < timestamp) →
        (∃ ppid, Untainted p ppid s₁) ∧ NewTo e pid s₁) := by
  obtain ⟨hinv₁, hgrows₁⟩ := expire_keeps none e hinv
  have hspid : s.pid = pid := hinv₁.live pid s hlive
  unfold ingestRuntimeEvent at h
  dsimp only at h
  generalize (expire env p none e).2 = e₁ at *
  have hrun : runtimeState env p event e₁ = (.ok (some s), e₁) ∨
      runtimeState env p event e₁ = (.ok none, e₁) := by
    simp only [runtimeState, hpid, hlive]
    split
    · exact .inr rfl
    · exact .inl rfl
  rcases hrun with hrun | hrun
  · simp only [hrun] at h
    split at h
    · exact absurd h (by simp)
    · next s₂ ht =>
      have htouch := touch_advance (p := p) event (env.clock e₁.clockReads) s
      have hexec := (touch_fields event (env.clock e₁.clockReads) s).2.2.1
      rw [ht] at htouch hexec
      have hexec' : s₂.execTimestampNs = s.execTimestampNs := hexec
      have hspid₂ : s₂.pid = pid := htouch.grows.pid.trans hspid
      obtain ⟨hinv₂, hgrows₂⟩ := put_keeps (show IsLive s e₁.readClock by
        rw [IsLive, hspid]; exact hlive) htouch (readClock_keeps e₁ hinv₁).1
      by_cases hkept : ∀ previous, s.execTimestampNs = some previous → timestamp ≤ previous
      · obtain ⟨hs₁, hgrow, -⟩ := exec_answer hkind htime
          (replaceGeneration_kept (hexec' ▸ hkept) _) h
        refine ⟨hspid₂ ▸ hs₁, fun _ => hgrow.correlationId.trans htouch.grows.correlationId, ?_⟩
        rintro ⟨previous, hprev, hlt⟩
        exact absurd (hkept previous hprev) (not_le.2 hlt)
      · obtain ⟨hs₁, hres⟩ := exec_replaces hid hkind hpid htime hinv₂ hspid₂
          (by simpa only [hexec', not_forall, exists_prop, not_le] using hkept) h
        exact ⟨hs₁, fun hk => absurd hk hkept, fun _ => ⟨hres.1, hres.2.of_grows
          (fun x hx => (hgrows₁ x hx).elim fun y hy => (hgrows₂ y hy.1).elim fun z hz =>
            ⟨z, hz.1, hy.2.trans hz.2⟩) (Grows.refl _)⟩⟩
  · simp only [hrun] at h
    exact absurd h (by simp)

/-! ## Answered states -/

theorem finishIngest_answer {event : Mapping F} {s s₁ : ExecutionState T F} {reads : Nat}
    {e e' : Engine T F} (h : finishIngest env p event s reads e = (.ok (.ingested s₁), e')) :
    e'.states.get? s₁.pid = some s₁ ∧ s₁.pid = s.pid := by
  have hpid : (recalculate env p (eventReason event) s reads).1.pid = s.pid :=
    (recalculate_grows ..).pid
  simp only [finishIngest, Prod.mk.injEq, Except.ok.injEq, Answer.ingested.injEq] at h
  rw [← h.1, ← h.2]
  exact ⟨get?_put_self _ _, hpid⟩

theorem runtimeState_keyed (env : Env T) (p : AcceptedPolicy T) (event : Mapping F)
    {e : Engine T F} (hk : Keyed e) : Keyed (runtimeState env p event e).2 := by
  obtain ⟨pid, hne⟩ := exists_otherProcess (T := T) (.ingestRuntimeEvent event)
  exact (runtimeState_frame env p hne hk).1.keyed

theorem runtimeState_reads (env : Env T) (p : AcceptedPolicy T) (event : Mapping F)
    {e : Engine T F} (hk : Keyed e) : e.clockReads ≤ (runtimeState env p event e).2.clockReads := by
  obtain ⟨pid, hne⟩ := exists_otherProcess (T := T) (.ingestRuntimeEvent event)
  exact (runtimeState_frame env p hne hk).1.reads

theorem replaceGeneration_pid (env : Env T) (p : AcceptedPolicy T) {event : Mapping F}
    (timestamp : Int) {s : ExecutionState T F} {e : Engine T F} (hpid : pidOf event = .ok s.pid)
    (hk : Keyed e) (s' : ExecutionState T F)
    (hs' : (replaceGeneration env p event timestamp s e).1 = .ok (some s')) :
    pidOf event = .ok s'.pid := by
  by_contra hne
  have hs : s.pid ≠ s'.pid := fun h => hne (h ▸ hpid)
  exact (replaceGeneration_frame env p hne timestamp hs hk).2 s' hs' rfl

theorem ingestKind_answer {event : Mapping F} {now : T} {s s₁ : ExecutionState T F}
    {e e' : Engine T F} (hpid : pidOf event = .ok s.pid) (hk : Keyed e)
    (h : ingestKind env p event now s e = (.ok (.ingested s₁), e')) :
    e'.states.get? s₁.pid = some s₁ ∧ pidOf event = .ok s₁.pid := by
  have hfinish : ∀ {s' : ExecutionState T F} {reads : Nat} {e₁ : Engine T F},
      pidOf event = .ok s'.pid → finishIngest env p event s' reads e₁ = (.ok (.ingested s₁), e') →
      e'.states.get? s₁.pid = some s₁ ∧ pidOf event = .ok s₁.pid := by
    intro s' reads e₁ hpid' hfin
    obtain ⟨hlive, heq⟩ := finishIngest_answer hfin
    exact ⟨hlive, heq.symm ▸ hpid'⟩
  have hadv : ∀ {s' : ExecutionState T F}, Advance p s s' → pidOf event = .ok s'.pid :=
    fun ha => ha.grows.pid.symm ▸ hpid
  unfold ingestKind at h
  split at h
  · split at h
    · exact absurd h (by simp)
    · next timestamp _ =>
      have hrep := replaceGeneration_pid env p timestamp hpid hk
      split at h
      · exact absurd h (by simp)
      · exact absurd h (by simp)
      · next s' e₁ heq =>
        rw [heq] at hrep
        have hobs : (observeExec env p event timestamp s' e₁.clockReads).1.pid = s'.pid :=
          (observeExec_advance (p := p) ..).grows.pid
        exact hfinish (hobs.symm ▸ hrep s' rfl) h
  · exact hfinish (hadv (observeWrite_advance ..)) h
  · exact hfinish (hadv (observeRename_advance ..)) h
  · exact hfinish (hadv (observeConnect_advance ..)) h
  · have ha := observeExit_advance (p := p) event now s
    split at h
    · exact absurd h (by simp)
    · next s' heq =>
      rw [heq] at ha
      exact hfinish (hadv ha) h
  · exact hfinish hpid h

/-- The state an event is answered with is the live state of its process. -/
theorem ingested_live {event : Mapping F} {e e' : Engine T F} (hk : Keyed e)
    {s : ExecutionState T F} (h : ingestRuntimeEvent env p event e = (.ok (.ingested s), e')) :
    e'.states.get? s.pid = some s ∧ pidOf event = .ok s.pid := by
  have hk₁ := (expire_frame env p 0 none hk).keyed
  have hpid := runtimeState_pid env p event hk₁
  unfold ingestRuntimeEvent at h
  dsimp only at h
  split at h
  · exact absurd h (by simp)
  · exact absurd h (by simp)
  · next s₂ e₂ hrun =>
    have hk₂ : Keyed e₂ := by
      have hkey := runtimeState_keyed env p event hk₁
      rw [hrun] at hkey
      exact hkey
    rw [hrun] at hpid
    split at h
    · exact absurd h (by simp)
    · next s₃ ht =>
      have htouch := (touch_advance (p := p) event (env.clock e₂.clockReads) s₂).grows
      rw [ht] at htouch
      have hk₃ : Keyed (e₂.readClock.put s₃) := set_keyed (e := e₂) hk₂ s₃
      exact ingestKind_answer (htouch.pid.symm ▸ hpid s₂ rfl) hk₃ h

theorem exit_status {event : Mapping F} (hkind : kindOf event = .processExit) {e e' : Engine T F}
    {s : ExecutionState T F}
    (h : ingestRuntimeEvent env p event e = (.ok (.ingested s), e')) : s.status = .exited := by
  have hobs : ∀ now (s₁ : ExecutionState T F), (observeExit event now s₁).2.status = .exited := by
    intro now s₁
    unfold observeExit
    dsimp only
    split <;> rfl
  unfold ingestRuntimeEvent at h
  dsimp only at h
  split at h
  · exact absurd h (by simp)
  · exact absurd h (by simp)
  · split at h
    · exact absurd h (by simp)
    · next now s₁ _ =>
      simp only [ingestKind, hkind] at h
      split at h
      · exact absurd h (by simp)
      · next s₂ heq =>
        have hstatus := congrArg (fun r => r.2.status) heq
        simp only [finishIngest, Prod.mk.injEq, Except.ok.injEq, Answer.ingested.injEq] at h
        rw [← h.1, (recalculate_same ..).status]
        exact hstatus.symm.trans (hobs _ _)

/-! ## Runs -/

/-- The call is no record or event of `pid`. -/
def NoEvent (pid : Int) : Call T F → Prop
  | .registerPreExecution record => pidOf record ≠ .ok pid
  | .ingestRuntimeEvent event => pidOf event ≠ .ok pid
  | _ => True

/-- Without a record or an event for it, a process keeps its generation or loses its state. -/
theorem perform_sameId {pid : Int} {c : Call T F} (hc : NoEvent pid c) {e : Engine T F}
    (hk : Keyed e) {s' : ExecutionState T F}
    (hs' : (perform env p c e).2.states.get? pid = some s') :
    ∃ s, e.states.get? pid = some s ∧ s'.correlationId = s.correlationId := by
  by_cases hother : OtherProcess pid c
  · rcases (perform_frame env p hother hk).entry with h | h
    · exact ⟨s', h ▸ hs', rfl⟩
    · rw [h] at hs'
      exact absurd hs' (by simp)
  · cases c with
    | registerPreExecution record => exact absurd hc hother
    | ingestRuntimeEvent event => exact absurd hc hother
    | expire now => exact absurd trivial hother
    | recordActionResult pid' id result =>
        have hpid : pid' = pid := not_ne_iff.1 hother
        subst hpid
        simp only [perform, recordActionResult] at hs'
        split at hs'
        · next hnone => exact absurd (hnone.symm.trans hs') (by simp)
        · next s hs =>
          split at hs'
          · exact ⟨s', hs', rfl⟩
          · refine ⟨s, hs, ?_⟩
            simp only [Engine.put, Dict.get?_set, hk pid' s hs, if_true, Option.some.injEq] at hs'
            rw [← hs']

theorem runCalls_sameId {pid : Int} {calls : List (Call T F)} (hc : ∀ c ∈ calls, NoEvent pid c)
    {e : Engine T F} (hk : Keyed e) {s' : ExecutionState T F}
    (hs' : (runCalls env p calls e).states.get? pid = some s') :
    ∃ s, e.states.get? pid = some s ∧ s'.correlationId = s.correlationId := by
  induction calls generalizing e with
  | nil => exact ⟨s', hs', rfl⟩
  | cons c calls ih =>
      have hk' : Keyed (perform env p c e).2 := runCalls_keyed env p [c] hk
      obtain ⟨s, hs, hid⟩ := ih (fun c' hc' => hc c' (List.mem_cons_of_mem _ hc')) hk' hs'
      obtain ⟨s₀, hs₀, hid₀⟩ := perform_sameId (hc c (List.mem_cons_self ..)) hk hs
      exact ⟨s₀, hs₀, hid.trans hid₀⟩

/-- The state `s₁` shares nothing with the earlier state `s₀` of its process. -/
structure Isolated (p : AcceptedPolicy T) (s₀ s₁ : ExecutionState T F) : Prop where
  correlationId : s₁.correlationId ≠ s₀.correlationId
  generation : s₀.generation < s₁.generation
  untainted : ∃ ppid, Untainted p ppid s₁

/-- **When a reused process id starts afresh.** In any run, let the state `s₀` of `pid` answer a
    `PROCESS_EXIT` and let the next event of `pid` be a `PROCESS_EXEC`, answered with `s₁`. Then
    `s₁` is the state of `pid`, and it is isolated from `s₀` exactly when no state of `pid` is left
    in the table at the exec (it expired or was evicted), or the one that is left recorded an exec
    of its own with a smaller timestamp. -/
theorem pid_reuse_isolated_iff (hid : Function.Injective env.idFactory)
    (before between : List (Call T F)) {pid timestamp : Int} {exit exec : Mapping F}
    {e₁ e₂ e₃ : Engine T F} {s₀ s₁ : ExecutionState T F}
    (hexit : ingestRuntimeEvent env p exit (runCalls env p before {}) = (.ok (.ingested s₀), e₁))
    (hkind₀ : kindOf exit = .processExit) (hpid₀ : pidOf exit = .ok pid)
    (hbetween : ∀ c ∈ between, NoEvent pid c) (he₂ : e₂ = runCalls env p between e₁)
    (hexec : ingestRuntimeEvent env p exec e₂ = (.ok (.ingested s₁), e₃))
    (hkind₁ : kindOf exec = .processExec) (hpid₁ : pidOf exec = .ok pid)
    (htime : intOr exec "timestamp_ns" 0 = .ok timestamp) :
    s₀.status = .exited ∧ e₃.states.get? pid = some s₁ ∧
      (Isolated p s₀ s₁ ↔
        ∀ s, e₂.states.get? pid = some s → expiry p (env.clock e₂.clockReads) s = none →
          ∃ previous, s.execTimestampNs = some previous ∧ previous < timestamp) := by
  have hinv₀ : EngineInv env p (runCalls env p before ({} : Engine T F)) :=
    (runCalls_keeps hid before {} initial_inv).1
  have hinv₁ : EngineInv env p e₁ := by
    have h := (ingestRuntimeEvent_keeps hid exit _ hinv₀).1
    rw [hexit] at h
    exact h
  obtain ⟨hlive₀, hs₀pid⟩ := ingested_live hinv₀.live hexit
  rw [hpid₀, Except.ok.injEq] at hs₀pid
  obtain ⟨hinv₂, hgrows₂⟩ := runCalls_keeps hid between e₁ hinv₁
  rw [← he₂] at hinv₂ hgrows₂
  -- the exited state is known to `e₂` in a later version
  obtain ⟨s₀', hs₀', hgrow⟩ := hgrows₂ s₀ ((known_perm_pop hlive₀).mem_iff.2 (List.mem_cons_self ..))
  have hisolated : (∃ ppid, Untainted p ppid s₁) → NewTo e₂ pid s₁ → Isolated p s₀ s₁ := by
    intro hun hnew
    obtain ⟨hne, hgen⟩ := hnew s₀' hs₀'
    rw [hgrow.correlationId] at hne
    rw [hgrow.pid, hgrow.generation] at hgen
    exact ⟨hne, hgen hs₀pid.symm, hun⟩
  refine ⟨exit_status hkind₀ hexit, ?_⟩
  have hget := get?_expire env p none e₂ pid
  simp only [Option.getD_none] at hget
  cases hlive : (expire env p none e₂).2.states.get? pid with
  | none =>
      obtain ⟨hs₁, hun, hnew⟩ := exec_without_state hid hkind₁ hpid₁ htime hinv₂ hlive hexec
      refine ⟨hs₁, fun _ s hs hexp => ?_, fun _ => hisolated hun hnew⟩
      rw [hlive, hs] at hget
      exact absurd hget (by simp [Option.filter, hexp])
  | some s =>
      rw [hlive, eq_comm, Option.filter_eq_some_iff, Option.isNone_iff_eq_none] at hget
      obtain ⟨hs₁, hkept, hreplaced⟩ := exec_with_state hid hkind₁ hpid₁ htime hinv₂ hlive hexec
      refine ⟨hs₁, fun hiso x hx _ => ?_, fun hcond => ?_⟩
      · rw [hget.1, Option.some.injEq] at hx
        subst hx
        by_contra hno
        push Not at hno
        -- the state found is the exited one, and the exec kept it
        obtain ⟨x, hx, hsame⟩ := runCalls_sameId hbetween hinv₁.live (he₂ ▸ hget.1)
        rw [hs₀pid, hlive₀, Option.some.injEq] at hx
        exact hiso.correlationId ((hkept hno).trans (hsame.trans (by rw [hx])))
      · obtain ⟨hun, hnew⟩ := hreplaced (hcond s hget.1 hget.2)
        exact hisolated hun hnew

/-! ### A process that was first seen through a write -/

/-- The state an event was answered with. -/
def answeredState (r : Except PyExc (Answer T F) × Engine T F) : Option (ExecutionState T F) :=
  match r.1 with
  | .ok (.ingested s) => some s
  | _ => none

theorem eq_of_answeredState {r : Except PyExc (Answer T F) × Engine T F}
    {s : ExecutionState T F} (h : answeredState r = some s) : r = (.ok (.ingested s), r.2) := by
  obtain ⟨a, e⟩ := r
  unfold answeredState at h
  split at h
  · next heq =>
    simp only [Option.some.injEq] at h
    simp only [Prod.mk.injEq, and_true]
    rw [← h]
    exact heq
  · exact absurd h (by simp)

/-- Process 7 exits. -/
def sampleExit : Mapping SampleFloat :=
  [(py "event_type", .str (py "PROCESS_EXIT")), (py "tgid", .int 7), (py "pid", .int 7),
    (py "timestamp_ns", .int 8)]

/-- A new process gets the id 7. -/
def reuseExec : Mapping SampleFloat :=
  [(py "event_type", .str (py "PROCESS_EXEC")), (py "tgid", .int 7), (py "pid", .int 7),
    (py "timestamp_ns", .int 9), (py "executable_identifier", .str (py "/bin/c"))]

/-- The engine after one event and the exit of process 7. -/
def afterExit (first : Mapping SampleFloat) : Except PyExc (Answer ℤ SampleFloat) ×
    Engine ℤ SampleFloat :=
  ingestRuntimeEvent sampleEnv acceptedDefaultPolicy sampleExit
    (runCalls sampleEnv acceptedDefaultPolicy [.ingestRuntimeEvent first] {})

/-- The exec that reuses the id of the exited process. -/
def afterReuse (first : Mapping SampleFloat) : Except PyExc (Answer ℤ SampleFloat) ×
    Engine ℤ SampleFloat :=
  ingestRuntimeEvent sampleEnv acceptedDefaultPolicy reuseExec (afterExit first).2

/-- The old process was seen through its exec: the new one starts afresh. -/
theorem pid_reuse_after_exec : ∃ s₀ s₁, answeredState (afterExit sampleExec) = some s₀ ∧
    answeredState (afterReuse sampleExec) = some s₁ ∧ Isolated acceptedDefaultPolicy s₀ s₁ := by
  obtain ⟨s₀, hs₀⟩ : ∃ s, answeredState (afterExit sampleExec) = some s :=
    Option.isSome_iff_exists.1 (by decide)
  obtain ⟨s₁, hs₁⟩ : ∃ s, answeredState (afterReuse sampleExec) = some s :=
    Option.isSome_iff_exists.1 (by decide)
  refine ⟨s₀, s₁, hs₀, hs₁, ?_⟩
  obtain ⟨-, -, hiff⟩ := pid_reuse_isolated_iff sampleEnv_idFactory_injective
    [.ingestRuntimeEvent sampleExec] [] (eq_of_answeredState hs₀) rfl
    (rfl : pidOf sampleExit = .ok 7)
    (fun c hc => absurd hc (by simp)) rfl (eq_of_answeredState hs₁) rfl rfl rfl
  refine hiff.2 fun s hs _ => ?_
  have hexec : ((afterExit sampleExec).2.states.get? 7).map (·.execTimestampNs) =
      some (some 5) := by decide
  obtain ⟨s', hs', hfive⟩ := Option.map_eq_some_iff.1 hexec
  rw [show s = s' from Option.some.inj (hs.symm.trans hs')]
  exact ⟨5, hfive, by decide⟩

/-- The old process was only seen writing a file: the new one inherits its id, its file and its
    score. -/
theorem pid_reuse_after_write :
    intOr sampleExit "timestamp_ns" 0 = .ok 8 ∧ intOr reuseExec "timestamp_ns" 0 = .ok 9 ∧
    ∃ s₀ s₁, answeredState (afterExit sampleWrite) = some s₀ ∧
      answeredState (afterReuse sampleWrite) = some s₁ ∧
      s₁.correlationId = s₀.correlationId ∧ s₁.distinctFiles = [py "1:2"] ∧
      s₁.combinedScore = 8 ∧ ¬ Isolated acceptedDefaultPolicy s₀ s₁ := by
  refine ⟨rfl, rfl, ?_⟩
  have h₀ : (answeredState (afterExit sampleWrite)).map (·.correlationId) = some [] := by decide
  have h₁ : (answeredState (afterReuse sampleWrite)).map
      (fun s => (s.correlationId, s.distinctFiles, s.combinedScore)) =
        some ([], [py "1:2"], 8) := by decide
  obtain ⟨s₀, hs₀, hid₀⟩ := Option.map_eq_some_iff.1 h₀
  obtain ⟨s₁, hs₁, hfields⟩ := Option.map_eq_some_iff.1 h₁
  simp only [Prod.mk.injEq] at hfields
  refine ⟨s₀, s₁, hs₀, hs₁, hfields.1.trans hid₀.symm, hfields.2.1, hfields.2.2, fun h => ?_⟩
  exact h.correlationId (hfields.1.trans hid₀.symm)

end Elyra.Correlation
