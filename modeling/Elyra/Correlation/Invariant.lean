import Elyra.Correlation.Engine

set_option autoImplicit false
set_option linter.unusedSectionVars false

/-! # Invariants of the correlation engine

What holds in every reachable engine, whatever the records, the events, the clock and the explicit
expiry times are. The argument has two layers.

* On one state: every mutation the engine makes is an `Advance` (it keeps the identity of the state,
  never lowers a score or an action, and keeps the scores equal to what the indicators say).
* On the engine: the operations put an advanced state back, archive a state, or create one
  (`EngineInv`, and `EngineGrows` between two engines of one run). -/

namespace Elyra.Correlation

open Elyra.Python

variable {T F : Type} [Zero T] [Min T] [Sub T] [LE T] [DecidableLE T] [LT T] [DecidableLT T]
variable [FloatNum F]
variable {env : Env T} {p : AcceptedPolicy T}

/-! ## One state -/

/-- The occurrence numbers of the indicators of one rule, in the order they were added. -/
def occurrenceNumbers (s : ExecutionState T F) (r : Rule) : List Nat :=
  (s.runtimeIndicators.filter (fun i => i.rule = r)).map (·.occurrence)

/-- `sum(item.weight for item in state.runtime_indicators)`. -/
def indicatorWeight (s : ExecutionState T F) : Int := (s.runtimeIndicators.map (·.weight)).sum

/-- The part of a state that `_recalculate` reads is consistent. -/
structure Counted (p : AcceptedPolicy T) (s : ExecutionState T F) : Prop where
  numbered : ∀ r, occurrenceNumbers s r = List.range' 1 (s.occurrences r)
  capped : ∀ r, (s.occurrences r : Int) ≤ (p.spec r).maxOccurrences
  unbound : s.source = .runtimeOnly → s.preExecutionScore = 0

/-- The state is consistent and its scores and action are up to date. -/
structure StateOk (p : AcceptedPolicy T) (s : ExecutionState T F) : Prop extends Counted p s where
  runtime : s.runtimeScore = min 100 (indicatorWeight s)
  combined : s.combinedScore = min 100 (s.preExecutionScore + s.runtimeScore)
  action : (actionFor p s).rank ≤ s.recommendedAction.rank

/-- `s'` is a later version of `s`: the same execution, with no less evidence. -/
structure Grows (s s' : ExecutionState T F) : Prop where
  correlationId : s'.correlationId = s.correlationId
  pid : s'.pid = s.pid
  generation : s'.generation = s.generation
  preScore : s.preExecutionScore ≤ s'.preExecutionScore
  weight : indicatorWeight s ≤ indicatorWeight s'
  rank : s.recommendedAction.rank ≤ s'.recommendedAction.rank

theorem Grows.refl (s : ExecutionState T F) : Grows s s := ⟨rfl, rfl, rfl, le_rfl, le_rfl, le_rfl⟩

theorem Grows.trans {s s' s'' : ExecutionState T F} (h : Grows s s') (h' : Grows s' s'') :
    Grows s s'' :=
  ⟨h'.correlationId.trans h.correlationId, h'.pid.trans h.pid, h'.generation.trans h.generation,
    h.preScore.trans h'.preScore, h.weight.trans h'.weight, h.rank.trans h'.rank⟩

/-- Between two versions with up-to-date scores, the combined score does not decrease. -/
theorem Grows.combined_le {s s' : ExecutionState T F} (h : Grows s s') (hs : StateOk p s)
    (hs' : StateOk p s') : s.combinedScore ≤ s'.combinedScore := by
  have hpre := h.preScore
  have hweight := h.weight
  rw [hs.combined, hs'.combined, hs.runtime, hs'.runtime]
  omega

/-- A mutation of a live state that keeps what the engine promises about it. -/
structure Advance (p : AcceptedPolicy T) (s s' : ExecutionState T F) : Prop where
  grows : Grows s s'
  ok : StateOk p s → StateOk p s'

theorem Advance.refl (s : ExecutionState T F) : Advance p s s := ⟨Grows.refl s, id⟩

theorem Advance.trans {s s' s'' : ExecutionState T F} (h : Advance p s s') (h' : Advance p s' s'') :
    Advance p s s'' :=
  ⟨h.grows.trans h'.grows, h'.ok ∘ h.ok⟩

/-! ### Recalculation and rules -/

theorem rank_le_escalate (previous candidate : Action) :
    previous.rank ≤ (escalate previous candidate).rank ∧
      candidate.rank ≤ (escalate previous candidate).rank := by
  unfold escalate
  split
  · next h => exact ⟨le_rfl, h.le⟩
  · next h => exact ⟨not_lt.1 h, le_rfl⟩

/-- `_recalculate` changes the scores, the action and the transitions, and nothing else. -/
theorem recalculate_fst (env : Env T) (p : AcceptedPolicy T) (reason : PyStr) (s : ExecutionState T F) (reads : Nat) :
    ∃ ts, (recalculate env p reason s reads).1 = { rescored p s with
      recommendedAction := escalate s.recommendedAction (actionFor p (rescored p s))
      transitions := ts } := by
  unfold recalculate
  dsimp only
  split
  · exact ⟨_, rfl⟩
  · exact ⟨s.transitions, rfl⟩

theorem recalculate_lastSeen (reason : PyStr) (s : ExecutionState T F) (reads : Nat) :
    (recalculate env p reason s reads).1.lastSeenMonotonic = s.lastSeenMonotonic := by
  obtain ⟨ts, h⟩ := recalculate_fst env p reason s reads
  rw [h]
  rfl

theorem recalculate_grows (reason : PyStr) (s : ExecutionState T F) (reads : Nat) :
    Grows s (recalculate env p reason s reads).1 := by
  obtain ⟨ts, h⟩ := recalculate_fst env p reason s reads
  rw [h]
  exact ⟨rfl, rfl, rfl, le_rfl, le_rfl, (rank_le_escalate _ _).1⟩

theorem recalculate_ok (reason : PyStr) {s : ExecutionState T F} (hs : Counted p s) (reads : Nat) :
    StateOk p (recalculate env p reason s reads).1 := by
  obtain ⟨ts, h⟩ := recalculate_fst env p reason s reads
  rw [h]
  have hmax := p.facts.scoreMaximum
  refine ⟨⟨hs.numbered, hs.capped, hs.unbound⟩, ?_, ?_, (rank_le_escalate _ _).2⟩
  · simp only [rescored, hmax, indicatorWeight]
  · simp only [rescored, hmax]

theorem recalculate_advance (reason : PyStr) (s : ExecutionState T F) (reads : Nat) :
    Advance p s (recalculate env p reason s reads).1 :=
  ⟨recalculate_grows reason s reads, fun hs => recalculate_ok reason hs.toCounted reads⟩

/-- The state `_apply_rule` recalculates: one more indicator, numbered with the new count. -/
theorem counted_addIndicator {r : Rule} {evidence : Json F} {s : ExecutionState T F}
    (hs : Counted p s) (hcap : ¬ (p.spec r).maxOccurrences ≤ s.occurrences r) :
    Counted p { s with
      ruleOccurrences := s.ruleOccurrences.set r (s.occurrences r + 1)
      runtimeIndicators := s.runtimeIndicators ++
        [⟨r, (p.spec r).weight, s.occurrences r + 1, (p.spec r).maxOccurrences, evidence,
          (p.spec r).description⟩] } := by
  refine ⟨fun r' => ?_, fun r' => ?_, hs.unbound⟩
  · have hold := hs.numbered r'
    unfold occurrenceNumbers at hold ⊢
    by_cases hr : r' = r
    · subst hr
      simp only [List.filter_append, List.map_append, hold, ExecutionState.occurrences,
        Dict.get?_set_self, Option.getD_some, List.range'_concat]
      simp [Nat.add_comm]
    · have hr' : ¬ r = r' := fun h => hr h.symm
      simp only [List.filter_append, List.map_append, hold, ExecutionState.occurrences,
        Dict.get?_set_ne _ hr]
      simp [hr']
  · have hold := hs.capped r'
    unfold ExecutionState.occurrences at hold hcap ⊢
    by_cases hr : r' = r
    · subst hr
      simp only [Dict.get?_set_self, Option.getD_some]
      push_cast
      omega
    · rw [Dict.get?_set_ne _ hr]
      exact hold

theorem applyRule_advance (r : Rule) (evidence : Json F) (s : ExecutionState T F) (reads : Nat) :
    Advance p s (applyRule env p r evidence s reads).1 := by
  unfold applyRule
  dsimp only
  split
  · exact Advance.refl s
  · next hcap =>
    constructor
    · refine Grows.trans ?_ (recalculate_grows r.name _ reads)
      have hweight := (p.spec_facts r).2.1
      refine ⟨rfl, rfl, rfl, le_rfl, ?_, le_rfl⟩
      simp only [indicatorWeight, List.map_append, List.sum_append, List.map_cons, List.map_nil,
        List.sum_cons, List.sum_nil]
      omega
    · intro hs
      exact recalculate_ok r.name (counted_addIndicator hs.toCounted hcap) reads

/-! ### The other mutations -/

/-- Fields outside the scores may change freely, and the status may become anything but denied. -/
theorem advance_of_fields {s s' : ExecutionState T F} (hid : s'.correlationId = s.correlationId)
    (hpid : s'.pid = s.pid) (hgen : s'.generation = s.generation)
    (hsource : s'.source = s.source)
    (hpre : s'.preExecutionScore = s.preExecutionScore)
    (hind : s'.runtimeIndicators = s.runtimeIndicators)
    (hocc : s'.ruleOccurrences = s.ruleOccurrences)
    (hrun : s'.runtimeScore = s.runtimeScore) (hcomb : s'.combinedScore = s.combinedScore)
    (hact : s'.recommendedAction = s.recommendedAction)
    (hstatus : s'.status = s.status ∨ s'.status ≠ .deniedPreExecution) : Advance p s s' := by
  refine ⟨⟨hid, hpid, hgen, hpre.ge, ?_, by rw [hact]⟩, fun hs => ?_⟩
  · simp only [indicatorWeight, hind, le_refl]
  · refine ⟨⟨fun r => ?_, fun r => ?_, ?_⟩, ?_, ?_, ?_⟩
    · have h := hs.numbered r
      simpa only [occurrenceNumbers, ExecutionState.occurrences, hind, hocc] using h
    · have h := hs.capped r
      simpa only [ExecutionState.occurrences, hocc] using h
    · rw [hsource, hpre]
      exact hs.unbound
    · rw [hrun, hs.runtime]
      simp only [indicatorWeight, hind]
    · rw [hcomb, hpre, hrun]
      exact hs.combined
    · rw [hact]
      have h := hs.action
      unfold actionFor at h ⊢
      rw [hcomb]
      rcases hstatus with hstatus | hstatus
      · rwa [hstatus]
      · rw [if_neg hstatus]
        -- a denied state already recommends `DENY`, which ranks above every threshold
        split at h
        · refine le_trans ?_ h
          split_ifs <;> decide
        · exact h

theorem touch_lastSeen (event : Mapping F) (now : T) (s : ExecutionState T F) :
    (touch event now s).2.lastSeenMonotonic = now := by
  unfold touch
  dsimp only
  split
  · rfl
  · split <;> rfl

theorem touch_advance (event : Mapping F) (now : T) (s : ExecutionState T F) :
    Advance p s (touch event now s).2 := by
  unfold touch
  dsimp only
  split
  · exact advance_of_fields rfl rfl rfl rfl rfl rfl rfl rfl rfl rfl (.inl rfl)
  · split <;> exact advance_of_fields rfl rfl rfl rfl rfl rfl rfl rfl rfl rfl (.inl rfl)

theorem observeExec_advance (event : Mapping F) (timestamp : Int) (s : ExecutionState T F)
    (reads : Nat) : Advance p s (observeExec env p event timestamp s reads).1 := by
  have hmark : Advance p s (markExec event timestamp s) :=
    advance_of_fields rfl rfl rfl rfl rfl rfl rfl rfl rfl rfl (.inr (by simp [markExec]))
  unfold observeExec
  dsimp only
  split
  · exact hmark
  · exact hmark.trans (applyRule_advance _ _ _ reads)

theorem observeKey_advance (r : Rule) (key : PyStr) (evidence : Json F) (seen : List PyStr)
    {add : ExecutionState T F → List PyStr → ExecutionState T F} (s : ExecutionState T F)
    (hadd : ∀ seen, Advance p s (add s seen)) (reads : Nat) :
    Advance p s (observeKey env p r key evidence seen add s reads).1 := by
  unfold observeKey
  split
  · exact Advance.refl s
  · exact (hadd _).trans (applyRule_advance r evidence _ reads)

theorem observeWrite_advance (event : Mapping F) (s : ExecutionState T F) (reads : Nat) :
    Advance p s (observeWrite env p event s reads).1 := by
  unfold observeWrite
  split
  · exact Advance.refl s
  · exact Advance.refl s
  · exact observeKey_advance _ _ _ _ s
      (fun _ => advance_of_fields rfl rfl rfl rfl rfl rfl rfl rfl rfl rfl (.inl rfl)) reads

theorem observeRename_advance (event : Mapping F) (s : ExecutionState T F) (reads : Nat) :
    Advance p s (observeRename env p event s reads).1 :=
  observeKey_advance _ _ _ _ s
    (fun _ => advance_of_fields rfl rfl rfl rfl rfl rfl rfl rfl rfl rfl (.inl rfl)) reads

theorem observeConnect_advance (event : Mapping F) (s : ExecutionState T F) (reads : Nat) :
    Advance p s (observeConnect env p event s reads).1 :=
  observeKey_advance _ _ _ _ s
    (fun _ => advance_of_fields rfl rfl rfl rfl rfl rfl rfl rfl rfl rfl (.inl rfl)) reads

theorem observeExit_advance (event : Mapping F) (now : T) (s : ExecutionState T F) :
    Advance p s (observeExit event now s).2 := by
  unfold observeExit
  dsimp only
  split <;>
    exact advance_of_fields rfl rfl rfl rfl rfl rfl rfl rfl rfl rfl (.inr (by simp))

theorem scoreOf_nonneg {v : Json F} {n : Int} (h : scoreOf v = .ok n) : 0 ≤ n := by
  have hclamp : ∀ k : Int, 0 ≤ clampScore k := fun k => le_max_left ..
  unfold scoreOf at h
  split at h
  · simp only [Except.ok.injEq] at h
    exact h ▸ hclamp _
  · split at h
    · simp only [Except.ok.injEq] at h
      exact h ▸ hclamp _
    · exact absurd h (by simp)
  · split at h
    · simp only [Except.ok.injEq] at h
      omega
    · split at h
      · simp only [Except.ok.injEq] at h
        exact h ▸ hclamp _
      · simp only [Except.ok.injEq] at h
        omega
      · exact absurd h (by simp)
  · simp only [Except.ok.injEq] at h
    omega

theorem registrationOf_score_nonneg {record : Mapping F} {r : Registration F}
    (h : registrationOf record = .ok r) : 0 ≤ r.score := by
  unfold registrationOf at h
  split at h
  · exact absurd h (by simp)
  · next score hscore =>
    split at h
    · exact absurd h (by simp)
    · simp only [Except.ok.injEq] at h
      exact h ▸ scoreOf_nonneg hscore

/-- Late binding replaces a pre-execution score of zero: only a runtime-only state is bound. -/
theorem bindLate_advance (env : Env T) {r : Registration F} (hr : 0 ≤ r.score)
    {now : T} {s : ExecutionState T F} (hs : StateOk p s) (hbind : lateBind p now s = true)
    (reason : PyStr) (reads : Nat) :
    Advance p s (recalculate env p reason (bindLate r now s) reads).1 := by
  have hsource : s.source = .runtimeOnly := by
    simp only [lateBind, Bool.and_eq_true, decide_eq_true_eq] at hbind
    exact hbind.1.1
  have hcounted : Counted p (bindLate r now s) :=
    ⟨hs.numbered, hs.capped, fun h => absurd h (by simp [bindLate])⟩
  refine ⟨Grows.trans ?_ (recalculate_grows reason _ reads), fun _ => recalculate_ok _ hcounted _⟩
  refine ⟨rfl, rfl, rfl, ?_, le_rfl, le_rfl⟩
  rw [hs.unbound hsource]
  exact hr

/-! ## The engine -/

/-- Every state the engine ever created: the archived ones, oldest first, then the live ones. -/
def Engine.known (e : Engine T F) : List (ExecutionState T F) := e.archiveLog ++ e.states.values

/-- The generations created for `pid`, in order of creation: at most one state of a process is live,
    so its archived states are the earlier ones. -/
def Engine.generationsOf (e : Engine T F) (pid : Int) : List Nat :=
  ((e.archiveLog.filter (fun s => s.pid = pid)) ++ (e.states.get? pid).toList).map (·.generation)

structure EngineInv (env : Env T) (p : AcceptedPolicy T) (e : Engine T F) : Prop where
  live : ∀ pid s, e.states.get? pid = some s → s.pid = pid
  ok : ∀ s ∈ e.known, StateOk p s
  bounded : (e.states.size : Int) ≤ p.toPolicy.maxStates
  distinct : (e.known.map (·.correlationId)).Nodup
  issued : ∀ s ∈ e.known, ∃ i < e.idsIssued, s.correlationId = env.idFactory i
  generations : ∀ pid, e.generationsOf pid = List.range' 1 ((e.generationByPid.get? pid).getD 0)

/-- Every state known before has a later version. -/
def EngineGrows (e e' : Engine T F) : Prop := ∀ s ∈ e.known, ∃ s' ∈ e'.known, Grows s s'

/-- The step from `e` to `e'` keeps the invariant and loses no state. -/
def Keeps (env : Env T) (p : AcceptedPolicy T) (e e' : Engine T F) : Prop :=
  EngineInv env p e → EngineInv env p e' ∧ EngineGrows e e'

theorem Keeps.refl (e : Engine T F) : Keeps env p e e :=
  fun h => ⟨h, fun s hs => ⟨s, hs, Grows.refl s⟩⟩

theorem Keeps.trans {e e' e'' : Engine T F} (h : Keeps env p e e') (h' : Keeps env p e' e'') :
    Keeps env p e e'' := by
  intro hinv
  obtain ⟨hinv', hg⟩ := h hinv
  obtain ⟨hinv'', hg'⟩ := h' hinv'
  refine ⟨hinv'', fun s hs => ?_⟩
  obtain ⟨s', hs', hgrow⟩ := hg s hs
  obtain ⟨s'', hs'', hgrow'⟩ := hg' s' hs'
  exact ⟨s'', hs'', hgrow.trans hgrow'⟩

/-- The number of clock readings is not part of the invariant. -/
theorem keeps_clock (e : Engine T F) (n : Nat) : Keeps env p e { e with clockReads := n } :=
  fun h => ⟨⟨h.live, h.ok, h.bounded, h.distinct, h.issued, h.generations⟩,
    fun s hs => ⟨s, hs, Grows.refl s⟩⟩

theorem readClock_keeps (e : Engine T F) : Keeps env p e e.readClock := keeps_clock e _

/-- Exchanging one known state for a later version of it. -/
theorem known_exchange {e e' : Engine T F} {s s' : ExecutionState T F}
    {rest : List (ExecutionState T F)} (h : EngineInv env p e)
    (hperm : e.known.Perm (s :: rest)) (hperm' : e'.known.Perm (s' :: rest))
    (hids : e'.idsIssued = e.idsIssued) (ha : Advance p s s') :
    (∀ s ∈ e'.known, StateOk p s) ∧ (e'.known.map (·.correlationId)).Nodup ∧
      (∀ s ∈ e'.known, ∃ i < e'.idsIssued, s.correlationId = env.idFactory i) ∧
      EngineGrows e e' := by
  have hsmem : s ∈ e.known := hperm.mem_iff.2 (List.mem_cons_self ..)
  have hrest : ∀ x ∈ rest, x ∈ e.known := fun x hx => hperm.mem_iff.2 (List.mem_cons_of_mem _ hx)
  refine ⟨fun x hx => ?_, ?_, fun x hx => ?_, fun x hx => ?_⟩
  · rcases List.mem_cons.1 (hperm'.mem_iff.1 hx) with rfl | hx
    · exact ha.ok (h.ok s hsmem)
    · exact h.ok x (hrest x hx)
  · have hold := (hperm.map (·.correlationId)).nodup_iff.1 h.distinct
    rw [(hperm'.map (·.correlationId)).nodup_iff]
    simpa only [List.map_cons, ha.grows.correlationId] using hold
  · rw [hids]
    rcases List.mem_cons.1 (hperm'.mem_iff.1 hx) with rfl | hx
    · rw [ha.grows.correlationId]
      exact h.issued s hsmem
    · exact h.issued x (hrest x hx)
  · rcases List.mem_cons.1 (hperm.mem_iff.1 hx) with rfl | hx
    · exact ⟨s', hperm'.mem_iff.2 (List.mem_cons_self ..), ha.grows⟩
    · exact ⟨x, hperm'.mem_iff.2 (List.mem_cons_of_mem _ hx), Grows.refl x⟩

theorem known_perm_pop {e : Engine T F} {pid : Int} {s : ExecutionState T F}
    (hs : e.states.get? pid = some s) :
    e.known.Perm (s :: (e.archiveLog ++ (e.states.pop pid).values)) :=
  ((Dict.pop_perm hs).map Prod.snd |>.append_left e.archiveLog).trans List.perm_middle

theorem known_perm_put {e : Engine T F} {s s' : ExecutionState T F}
    (hs : e.states.get? s'.pid = some s) :
    (e.put s').known.Perm (s' :: (e.archiveLog ++ (e.states.pop s'.pid).values)) :=
  ((Dict.set_perm s' hs).map Prod.snd |>.append_left e.archiveLog).trans List.perm_middle

/-- Mutating a live state in place. -/
theorem put_keeps {e : Engine T F} {s s' : ExecutionState T F}
    (hs : e.states.get? s.pid = some s) (ha : Advance p s s') : Keeps env p e (e.put s') := by
  intro h
  have hs' : e.states.get? s'.pid = some s := by rw [ha.grows.pid, hs]
  obtain ⟨hok, hdistinct, hissued, hgrows⟩ :=
    known_exchange h (known_perm_pop hs') (known_perm_put hs') rfl ha
  refine ⟨⟨fun pid x hx => ?_, hok, ?_, hdistinct, hissued, fun pid => ?_⟩, hgrows⟩
  · simp only [Engine.put, Dict.get?_set] at hx
    split at hx
    · next hpid =>
      simp only [Option.some.injEq] at hx
      rw [← hx, hpid]
    · exact h.live pid x hx
  · simp only [Engine.put, Dict.size_set s' hs']
    exact h.bounded
  · have hold := h.generations pid
    simp only [Engine.generationsOf, Engine.put, Dict.get?_set] at hold ⊢
    split
    · next hpid =>
      rw [hpid, hs'] at hold
      simpa only [hpid, Option.toList_some, List.map_append, List.map_cons, List.map_nil,
        ha.grows.generation] using hold
    · exact hold

theorem get?_put_self (e : Engine T F) (s : ExecutionState T F) :
    (e.put s).states.get? s.pid = some s := Dict.get?_set_self ..

theorem terminalReason_advance (s : ExecutionState T F) (reason : PyStr) :
    Advance p s { s with terminalReason := some reason } :=
  advance_of_fields rfl rfl rfl rfl rfl rfl rfl rfl rfl rfl (.inl rfl)

/-- Archiving a state moves it from the live states to the archive. -/
theorem archive_keeps (e : Engine T F) (pid : Int) (reason : PyStr) :
    Keeps env p e (e.archive pid reason) := by
  unfold Engine.archive
  split
  · exact Keeps.refl e
  · next s hs =>
    intro h
    have hpid := h.live pid s hs
    have hperm' : ({ e with
        states := e.states.pop pid
        archiveLog := e.archiveLog ++ [{ s with terminalReason := some reason }] } :
          Engine T F).known.Perm ({ s with terminalReason := some reason } ::
            (e.archiveLog ++ (e.states.pop pid).values)) := by
      simp only [Engine.known, List.append_assoc, List.singleton_append]
      exact List.perm_middle
    obtain ⟨hok, hdistinct, hissued, hgrows⟩ :=
      known_exchange h (known_perm_pop hs) hperm' rfl (terminalReason_advance s reason)
    refine ⟨⟨fun pid' x hx => ?_, hok, ?_, hdistinct, hissued, fun pid' => ?_⟩, hgrows⟩
    · exact h.live pid' x (Dict.get?_of_pop hx).2
    · have hsize := Dict.size_pop hs
      have hbound := h.bounded
      simp only
      omega
    · have hold := h.generations pid'
      simp only [Engine.generationsOf, List.filter_append, List.map_append] at hold ⊢
      by_cases hp : pid' = pid
      · subst hp
        simpa [hs, hpid] using hold
      · have hne : ¬ s.pid = pid' := by rw [hpid]; exact fun h => hp h.symm
        simpa [Dict.get?_pop_ne _ hp, hne] using hold

theorem get?_archive_self (e : Engine T F) (pid : Int) (reason : PyStr) :
    (e.archive pid reason).states.get? pid = none := by
  unfold Engine.archive
  split
  · assumption
  · simp

/-- Archiving removes states and adds none. -/
theorem get?_archive_of_none {e : Engine T F} {pid : Int} (h : e.states.get? pid = none) (pid' : Int)
    (reason : PyStr) : (e.archive pid' reason).states.get? pid = none := by
  unfold Engine.archive
  split
  · exact h
  · by_contra hne
    obtain ⟨s, hs⟩ := Option.ne_none_iff_exists'.1 hne
    rw [(Dict.get?_of_pop hs).2] at h
    exact absurd h (by simp)

/-! ### Eviction and creation -/

theorem oldest_mem {items : List (Int × ExecutionState T F)} {pid : Int}
    (h : oldest items = some pid) : ∃ s, (pid, s) ∈ items := by
  have hfold : ∀ (rest : List (Int × ExecutionState T F)) (kv : Int × ExecutionState T F),
      rest.foldl (fun best kv =>
        if kv.2.lastSeenMonotonic < best.2.lastSeenMonotonic then kv else best) kv ∈ kv :: rest := by
    intro rest
    induction rest with
    | nil => intro kv; simp
    | cons x rest ih =>
        intro kv
        simp only [List.foldl_cons]
        have hx := ih (if x.2.lastSeenMonotonic < kv.2.lastSeenMonotonic then x else kv)
        rcases List.mem_cons.1 hx with hx | hx
        · rw [hx]
          split <;> simp
        · simp [hx]
  cases items with
  | nil => exact absurd h (by simp [oldest])
  | cons kv rest =>
      simp only [oldest, Option.some.injEq] at h
      exact ⟨_, by rw [← h]; exact hfold rest kv⟩

theorem evict_keeps (env : Env T) (p : AcceptedPolicy T) (e : Engine T F) : Keeps env p e (evict p e) := by
  unfold evict
  split
  · split
    · exact Keeps.refl e
    · exact archive_keeps e _ _
  · exact Keeps.refl e

/-- After the eviction there is room for one more state. -/
theorem evict_room {e : Engine T F} (h : EngineInv env p e) :
    ((evict p e).states.size : Int) < p.toPolicy.maxStates := by
  have hpos := p.facts.maxStates
  have hbound := h.bounded
  unfold evict
  split
  · next hfull =>
    split
    · next hnone =>
      -- a full table is not empty, as `max_states` is positive
      cases hitems : e.states.items with
      | nil =>
          simp only [Dict.size, hitems, List.length_nil] at hfull
          omega
      | cons kv rest => exact absurd hnone (by simp [oldest, hitems])
    · next pid hold =>
      obtain ⟨s, hmem⟩ := oldest_mem hold
      have hs := Dict.mem_items.1 hmem
      have hsize := Dict.size_pop hs
      simp only [Engine.archive, hs]
      omega
  · next hroom => exact not_le.1 hroom

theorem get?_evict_of_none {e : Engine T F} {pid : Int} (h : e.states.get? pid = none) :
    (evict p e).states.get? pid = none := by
  unfold evict
  split
  · split
    · exact h
    · exact get?_archive_of_none h _ _
  · exact h

theorem build_counted {a : NewState F} (ha : a.source = .runtimeOnly → a.preExecutionScore = 0)
    (id : PyStr) (generation : Nat) (now : T) : Counted p (a.build id generation now) := by
  refine ⟨fun r => ?_, fun r => ?_, ha⟩
  · simp [occurrenceNumbers, NewState.build, ExecutionState.occurrences]
  · have := (p.spec_facts r).2.2
    simp only [ExecutionState.occurrences, NewState.build, Dict.get?_empty, Option.getD_none]
    omega

theorem values_set_new {κ α : Type} [DecidableEq κ] {d : Dict κ α} {k : κ} (v : α)
    (h : d.get? k = none) : (d.set k v).values = d.values ++ [v] := by
  simp [Dict.values, Dict.set, assign_of_not_mem (lookup_eq_none_iff.1 h)]

section Creation

variable {a : NewState F} {e : Engine T F}

theorem newState_pid (env : Env T) (p : AcceptedPolicy T) (a : NewState F) (e : Engine T F) : (newState env p a e).1.pid = a.pid :=
  (recalculate_grows ..).pid

theorem get?_newState (env : Env T) (p : AcceptedPolicy T) (a : NewState F) (e : Engine T F) :
    (newState env p a e).2.states.get? a.pid = some (newState env p a e).1 :=
  Dict.get?_set_self ..

/-- The new state carries the next id and the next generation of its process. -/
theorem newState_fields (env : Env T) (p : AcceptedPolicy T) (e : Engine T F)
    (ha : a.source = .runtimeOnly → a.preExecutionScore = 0) :
    StateOk p (newState env p a e).1 ∧
      (newState env p a e).1.correlationId = env.idFactory (evict p e).idsIssued ∧
      (newState env p a e).1.generation = (evict p e).nextGeneration a.pid :=
  ⟨recalculate_ok _ (build_counted ha _ _ _) _, (recalculate_grows ..).correlationId,
    (recalculate_grows ..).generation⟩

/-- Creating a state for a process that has none. -/
theorem newState_keeps (hid : Function.Injective env.idFactory)
    (ha : a.source = .runtimeOnly → a.preExecutionScore = 0)
    (hnone : e.states.get? a.pid = none) : Keeps env p e (newState env p a e).2 := by
  intro h
  have hroom := evict_room h
  have hfree : (evict p e).states.get? a.pid = none := get?_evict_of_none hnone
  obtain ⟨hok, hcid, hgen⟩ := newState_fields env p e ha
  have hpid := newState_pid env p a e
  have hlive := get?_newState env p a e
  obtain ⟨h1, hg1⟩ := evict_keeps env p e h
  -- from here on only the evicted engine and the new state matter
  have hknown : (newState env p a e).2.known = (evict p e).known ++ [(newState env p a e).1] := by
    simp only [Engine.known, newState, values_set_new _ hfree, List.append_assoc]
  have hids : (newState env p a e).2.idsIssued = (evict p e).idsIssued + 1 := rfl
  have hsize : (newState env p a e).2.states.size = (evict p e).states.size + 1 :=
    Dict.size_set_new _ hfree
  have hother : ∀ pid ≠ a.pid,
      (newState env p a e).2.states.get? pid = (evict p e).states.get? pid :=
    fun pid hne => Dict.get?_set_ne _ hne _
  have harch : (newState env p a e).2.archiveLog = (evict p e).archiveLog := rfl
  have hgens : (newState env p a e).2.generationByPid =
      (evict p e).generationByPid.set a.pid ((evict p e).nextGeneration a.pid) := rfl
  generalize (newState env p a e).1 = s at *
  generalize (newState env p a e).2 = e' at *
  generalize evict p e = e1 at *
  refine ⟨⟨fun pid x hx => ?_, fun x hx => ?_, by omega, ?_, fun x hx => ?_, fun pid => ?_⟩, ?_⟩
  · by_cases hp : pid = a.pid
    · rw [hp, hlive, Option.some.injEq] at hx
      rw [← hx, hp, hpid]
    · rw [hother pid hp] at hx
      exact h1.live pid x hx
  · rw [hknown] at hx
    rcases List.mem_append.1 hx with hx | hx
    · exact h1.ok x hx
    · exact (List.mem_singleton.1 hx) ▸ hok
  · rw [hknown, List.map_append, List.nodup_append]
    refine ⟨h1.distinct, by simp, ?_⟩
    rintro id hmem id' hmem' rfl
    obtain ⟨x, hx, rfl⟩ := List.mem_map.1 hmem
    obtain ⟨i, hi, hxi⟩ := h1.issued x hx
    simp only [List.map_cons, List.map_nil, List.mem_singleton] at hmem'
    have heq := hid (hxi.symm.trans (hmem'.trans hcid))
    omega
  · rw [hids]
    rw [hknown] at hx
    rcases List.mem_append.1 hx with hx | hx
    · obtain ⟨i, hi, hxi⟩ := h1.issued x hx
      exact ⟨i, by omega, hxi⟩
    · rw [List.mem_singleton.1 hx]
      exact ⟨_, by omega, hcid⟩
  · have hold := h1.generations pid
    simp only [Engine.generationsOf, harch, hgens] at hold ⊢
    by_cases hp : pid = a.pid
    · subst hp
      rw [hfree] at hold
      simp only [Option.toList_none, List.append_nil] at hold
      rw [hlive, Dict.get?_set_self, Option.getD_some]
      simp only [Option.toList_some, List.map_append, List.map_cons, List.map_nil, hold, hgen,
        Engine.nextGeneration, List.range'_concat]
      simp [Nat.add_comm]
    · rw [hother pid hp, Dict.get?_set_ne _ hp]
      exact hold
  · intro x hx
    obtain ⟨x', hx', hgrow⟩ := hg1 x hx
    exact ⟨x', by rw [hknown]; exact List.mem_append_left _ hx', hgrow⟩

end Creation

/-! ### The calls -/

theorem expire_keeps (now : Option T) (e : Engine T F) : Keeps env p e (expire env p now e).2 := by
  have hfold : ∀ (expired : List (Int × PyStr)) (e : Engine T F),
      Keeps env p e (expired.foldl (fun e x => e.archive x.1 x.2) e) := by
    intro expired
    induction expired with
    | nil => exact Keeps.refl
    | cons x expired ih => exact fun e => (archive_keeps e x.1 x.2).trans (ih _)
  unfold expire
  cases now with
  | none => exact (keeps_clock e _).trans (hfold _ _)
  | some now => exact hfold _ _

theorem get?_archive_ne (e : Engine T F) {pid pid' : Int} (h : pid ≠ pid') (reason : PyStr) :
    (e.archive pid' reason).states.get? pid = e.states.get? pid := by
  unfold Engine.archive
  split
  · rfl
  · exact Dict.get?_pop_ne _ h

theorem get?_archiveAll (expired : List (Int × PyStr)) (e : Engine T F) (pid : Int) :
    (expired.foldl (fun e x => e.archive x.1 x.2) e).states.get? pid =
      if pid ∈ expired.map Prod.fst then none else e.states.get? pid := by
  induction expired generalizing e with
  | nil => simp
  | cons x expired ih =>
      rw [List.foldl_cons, ih]
      by_cases hx : pid = x.1
      · subst hx
        simp [get?_archive_self]
      · rw [get?_archive_ne e hx]
        simp only [List.map_cons, List.mem_cons, hx, false_or]

/-- `_expire` drops exactly the states whose time to live is over. -/
theorem get?_expire (env : Env T) (p : AcceptedPolicy T) (now : Option T) (e : Engine T F)
    (pid : Int) :
    (expire env p now e).2.states.get? pid =
      (e.states.get? pid).filter
        (fun s => (expiry p (now.getD (env.clock e.clockReads)) s).isNone) := by
  have hstates : ∀ e' : Engine T F, e'.states = e.states →
      (expiredAt p (now.getD (env.clock e.clockReads)) e').map Prod.fst =
        (e.states.items.filter (fun kv =>
          (expiry p (now.getD (env.clock e.clockReads)) kv.2).isSome)).map Prod.fst := by
    intro e' he
    rw [expiredAt, he]
    generalize e.states.items = items
    induction items with
    | nil => rfl
    | cons kv items ih =>
        cases hexp : expiry p (now.getD (env.clock e.clockReads)) kv.2 <;>
          simp [hexp, ih]
  have hmem : pid ∈ (e.states.items.filter (fun kv =>
      (expiry p (now.getD (env.clock e.clockReads)) kv.2).isSome)).map Prod.fst ↔
      ∃ s, e.states.get? pid = some s ∧
        (expiry p (now.getD (env.clock e.clockReads)) s).isSome := by
    simp only [List.mem_map, List.mem_filter, Prod.exists, exists_and_right, exists_eq_right,
      Dict.mem_items]
  unfold expire
  dsimp only
  rw [get?_archiveAll, hstates _ (by cases now <;> rfl)]
  cases hs : e.states.get? pid with
  | none =>
      have hnone : ∀ e' : Engine T F, e'.states = e.states → e'.states.get? pid = none :=
        fun e' he => he ▸ hs
      rw [hnone _ (by cases now <;> rfl)]
      simp
  | some s =>
      have hsome : ∀ e' : Engine T F, e'.states = e.states → e'.states.get? pid = some s :=
        fun e' he => he ▸ hs
      rw [hsome _ (by cases now <;> rfl)]
      simp only [hmem, hs, Option.some.injEq, exists_eq_left', Option.filter]
      by_cases hexp : (expiry p (now.getD (env.clock e.clockReads)) s).isSome
      · simp [hexp, ← Option.not_isSome]
      · simp [hexp, ← Option.not_isSome]

theorem bindRegistration_keeps (hid : Function.Injective env.idFactory) {r : Registration F}
    (hr : 0 ≤ r.score) (pid : Int) (now : T) (e : Engine T F) :
    Keeps env p e (bindRegistration env p r pid now e).2 := by
  have hnew : ∀ e : Engine T F, e.states.get? pid = none →
      Keeps env p e (newState env p (r.newState pid) e).2 := fun e he =>
    newState_keeps hid (fun h => absurd h (by simp [Registration.newState])) he
  unfold bindRegistration
  split
  · next s hs =>
    split
    · next hbind =>
      intro h
      have hpid := h.live pid s hs
      have hmem : s ∈ e.known := (known_perm_pop hs).mem_iff.2 (List.mem_cons_self ..)
      have ha := bindLate_advance env hr (h.ok s hmem) hbind
        (py "FANOTIFY_LATE_BINDING") e.clockReads
      have hs' : e.states.get? s.pid = some s := by rw [hpid, hs]
      exact ((put_keeps hs' ha).trans (keeps_clock _ _)) h
    · exact (archive_keeps e pid _).trans (hnew _ (get?_archive_self e pid _))
  · next hnone => exact hnew e hnone

theorem registerPreExecution_keeps (hid : Function.Injective env.idFactory) (record : Mapping F)
    (e : Engine T F) : Keeps env p e (registerPreExecution env p record e).2 := by
  refine (expire_keeps none e).trans ?_
  unfold registerPreExecution
  dsimp only
  split
  · exact Keeps.refl _
  · split
    · exact Keeps.refl _
    · refine (readClock_keeps _).trans ?_
      split
      · exact Keeps.refl _
      · next r hr => exact bindRegistration_keeps hid (registrationOf_score_nonneg hr) _ _ _

theorem parentOf_keeps (env : Env T) (p : AcceptedPolicy T) (ppid : Int) (e : Engine T F) :
    Keeps env p e (parentOf env p ppid e).2 ∧ (parentOf env p ppid e).2.states = e.states := by
  unfold parentOf
  split
  · exact ⟨Keeps.refl e, rfl⟩
  · exact ⟨keeps_clock e _, rfl⟩

/-- A state an operation hands on together with the engine: it is the live state of its process. -/
def IsLive (s : ExecutionState T F) (e : Engine T F) : Prop := e.states.get? s.pid = some s

theorem createRuntimeState_keeps (hid : Function.Injective env.idFactory) (event : Mapping F)
    {pid : Int} (ppid uid : Int) (parentId : Option PyStr) {e : Engine T F}
    (hnone : e.states.get? pid = none) :
    Keeps env p e (createRuntimeState env p event pid ppid uid parentId e).2 ∧
      IsLive (createRuntimeState env p event pid ppid uid parentId e).1
        (createRuntimeState env p event pid ppid uid parentId e).2 := by
  have hkeep := newState_keeps (p := p) hid (e := e) (a := runtimeNewState pid ppid uid parentId)
    (fun _ => rfl) hnone
  have hlive := get?_newState env p (runtimeNewState pid ppid uid parentId) e
  rw [← newState_pid env p _ e] at hlive
  unfold createRuntimeState
  dsimp only
  split
  · exact ⟨hkeep, hlive⟩
  · split
    · exact ⟨hkeep.trans ((put_keeps hlive (applyRule_advance ..)).trans (keeps_clock _ _)),
        get?_put_self _ _⟩
    · exact ⟨hkeep, hlive⟩

theorem runtimeState_keeps (hid : Function.Injective env.idFactory) (event : Mapping F)
    (e : Engine T F) :
    Keeps env p e (runtimeState env p event e).2 ∧
      (EngineInv env p e → ∀ s, (runtimeState env p event e).1 = .ok (some s) →
        IsLive s (runtimeState env p event e).2) := by
  unfold runtimeState
  split
  · exact ⟨Keeps.refl e, fun _ s h => absurd h (by simp)⟩
  · split
    · exact ⟨Keeps.refl e, fun _ s h => absurd h (by simp)⟩
    · split
      · next s hs =>
        refine ⟨Keeps.refl e, fun hinv s' h => ?_⟩
        simp only [Except.ok.injEq, Option.some.injEq] at h
        subst h
        simp only [IsLive, hinv.live _ s hs, hs]
      · next hnone =>
        split
        · exact ⟨Keeps.refl e, fun _ s h => absurd h (by simp)⟩
        · next ppid _ =>
          obtain ⟨hparent, hstates⟩ := parentOf_keeps env p ppid e
          dsimp only
          split
          · exact ⟨hparent, fun _ s h => absurd h (by simp)⟩
          · next uid _ =>
            obtain ⟨hkeep, hlive⟩ := createRuntimeState_keeps (p := p) hid event ppid uid
              (parentOf env p ppid e).1 (hstates ▸ hnone)
            refine ⟨hparent.trans hkeep, fun _ s h => ?_⟩
            simp only [Except.ok.injEq, Option.some.injEq] at h
            exact h ▸ hlive

theorem finishIngest_keeps (event : Mapping F) {s s' : ExecutionState T F} {e : Engine T F}
    (hlive : IsLive s e) (ha : Advance p s s') (reads : Nat) :
    Keeps env p e (finishIngest env p event s' reads e).2 :=
  (put_keeps hlive (ha.trans (recalculate_advance _ s' reads))).trans (keeps_clock _ _)

theorem replaceGeneration_keeps (hid : Function.Injective env.idFactory) (event : Mapping F)
    (timestamp : Int) {s : ExecutionState T F} {e : Engine T F} (hlive : IsLive s e) :
    Keeps env p e (replaceGeneration env p event timestamp s e).2 ∧
      (EngineInv env p e → ∀ s', (replaceGeneration env p event timestamp s e).1 = .ok (some s') →
        IsLive s' (replaceGeneration env p event timestamp s e).2) := by
  have hsame : EngineInv env p e → ∀ s',
      (Except.ok (some s) : Except PyExc (Option (ExecutionState T F))) = .ok (some s') →
      IsLive s' e := by
    intro _ s' h
    simp only [Except.ok.injEq, Option.some.injEq] at h
    exact h ▸ hlive
  unfold replaceGeneration
  split
  · exact ⟨Keeps.refl e, hsame⟩
  · split
    · have harch : Keeps env p e (e.archive s.pid (py "PID_EXEC_GENERATION_REPLACED")) :=
        archive_keeps _ _ _
      obtain ⟨hkeep, hlive'⟩ := runtimeState_keeps (p := p) hid event
        (e.archive s.pid (py "PID_EXEC_GENERATION_REPLACED"))
      exact ⟨harch.trans hkeep, fun hinv => hlive' (harch hinv).1⟩
    · exact ⟨Keeps.refl e, hsame⟩

theorem ingestKind_keeps (hid : Function.Injective env.idFactory) (event : Mapping F) (now : T)
    {s : ExecutionState T F} {e : Engine T F} (hlive : IsLive s e) :
    Keeps env p e (ingestKind env p event now s e).2 := by
  unfold ingestKind
  split
  · split
    · exact Keeps.refl e
    · next timestamp _ =>
      obtain ⟨hkeep, hlive'⟩ := replaceGeneration_keeps (p := p) hid event timestamp hlive
      split
      · next h => rw [h] at hkeep; exact hkeep
      · next h => rw [h] at hkeep; exact hkeep
      · next s' e' h =>
        rw [h] at hkeep hlive'
        intro hinv
        exact hkeep.trans (finishIngest_keeps event (hlive' hinv s' rfl)
          (observeExec_advance ..) _) hinv
  · exact finishIngest_keeps event hlive (observeWrite_advance ..) _
  · exact finishIngest_keeps event hlive (observeRename_advance ..) _
  · exact finishIngest_keeps event hlive (observeConnect_advance ..) _
  · have ha := observeExit_advance (p := p) event now s
    split
    · next h => rw [h] at ha; exact put_keeps hlive ha
    · next h => rw [h] at ha; exact finishIngest_keeps event hlive ha _
  · exact finishIngest_keeps event hlive (Advance.refl s) _

theorem ingestRuntimeEvent_keeps (hid : Function.Injective env.idFactory) (event : Mapping F)
    (e : Engine T F) : Keeps env p e (ingestRuntimeEvent env p event e).2 := by
  refine (expire_keeps none e).trans ?_
  unfold ingestRuntimeEvent
  dsimp only
  obtain ⟨hkeep, hlive⟩ := runtimeState_keeps (p := p) hid event (expire env p none e).2
  split
  · next h => rw [h] at hkeep; exact hkeep
  · next h => rw [h] at hkeep; exact hkeep
  · next s e' h =>
    rw [h] at hkeep hlive
    intro hinv
    have hs : IsLive s e'.readClock := hlive hinv s rfl
    refine (hkeep.trans (readClock_keeps e')).trans ?_ hinv
    have ha := touch_advance (p := p) event (env.clock e'.clockReads) s
    split
    · next ht => rw [ht] at ha; exact put_keeps hs ha
    · next ht =>
      rw [ht] at ha
      exact (put_keeps hs ha).trans (ingestKind_keeps hid event _ (get?_put_self _ _))

theorem recordActionResult_keeps (pid : Int) (correlationId : PyStr) (result : Mapping F)
    (e : Engine T F) : Keeps env p e (recordActionResult env pid correlationId result e).2 := by
  unfold recordActionResult
  split
  · exact Keeps.refl e
  · next s hs =>
    split
    · exact Keeps.refl e
    · intro h
      have hs' : e.readClock.states.get? s.pid = some s := by rw [h.live pid s hs]; exact hs
      refine ((readClock_keeps e).trans (put_keeps hs' ?_)) h
      exact advance_of_fields rfl rfl rfl rfl rfl rfl rfl rfl rfl rfl (.inl rfl)

/-- One call keeps the invariant. -/
theorem perform_keeps (hid : Function.Injective env.idFactory) (c : Call T F) (e : Engine T F) :
    Keeps env p e (perform env p c e).2 := by
  cases c with
  | registerPreExecution record => exact registerPreExecution_keeps hid record e
  | ingestRuntimeEvent event => exact ingestRuntimeEvent_keeps hid event e
  | expire now => exact expire_keeps now e
  | recordActionResult pid id result => exact recordActionResult_keeps pid id result e

/-- A run keeps the invariant. -/
theorem runCalls_keeps (hid : Function.Injective env.idFactory) (calls : List (Call T F))
    (e : Engine T F) : Keeps env p e (runCalls env p calls e) := by
  induction calls generalizing e with
  | nil => exact Keeps.refl e
  | cons c calls ih => exact (perform_keeps hid c e).trans (ih _)

theorem initial_inv : EngineInv env p ({} : Engine T F) := by
  refine ⟨?_, ?_, ?_, ?_, ?_, ?_⟩
  · intro pid s h
    exact absurd h (by simp)
  · intro s h
    exact absurd h (by simp [Engine.known, Dict.values, Dict.empty])
  · have := p.facts.maxStates
    simp only [Dict.size, Dict.empty, List.length_nil]
    omega
  · simp [Engine.known, Dict.values, Dict.empty]
  · intro s h
    exact absurd h (by simp [Engine.known, Dict.values, Dict.empty])
  · intro pid
    simp [Engine.generationsOf]

/-! ## Every run -/

/-- A correlation id has one version in each engine, so two versions of it are related. -/
theorem EngineGrows.of_sameId {e e' : Engine T F} (hgrows : EngineGrows e e')
    (hinv' : EngineInv env p e') {s s' : ExecutionState T F} (hs : s ∈ e.known)
    (hs' : s' ∈ e'.known) (hsame : s'.correlationId = s.correlationId) : Grows s s' := by
  obtain ⟨s'', hs'', hgrow⟩ := hgrows s hs
  have heq : s' = s'' :=
    List.inj_on_of_nodup_map hinv'.distinct hs' hs'' (hsame.trans hgrow.correlationId.symm)
  exact heq ▸ hgrow

theorem combined_le_of_sameId {e e' : Engine T F} (hinv : EngineInv env p e)
    (hinv' : EngineInv env p e') (hgrows : EngineGrows e e') {s s' : ExecutionState T F}
    (hs : s ∈ e.known) (hs' : s' ∈ e'.known) (hsame : s'.correlationId = s.correlationId) :
    s.combinedScore ≤ s'.combinedScore :=
  (hgrows.of_sameId hinv' hs hs' hsame).combined_le (hinv.ok s hs) (hinv'.ok s' hs')

/-- **The correlation invariants hold in every reachable engine, and along every run.** `calls` lead
    to the engine `e`, `later` on to `e'`.

    Live states have up-to-date scores, correctly numbered and capped indicators and an action no
    milder than the score asks for; the table is indexed by process and bounded; no correlation id
    is live and archived, or archived twice (`known` lists everything ever archived, of which the
    deque `archived` is the end, and then the live states); two versions of one correlation id,
    live or archived, never lower the combined score or the action; the generations created for a
    process are 1, 2, 3, ... -/
theorem correlation_run_invariants (hid : Function.Injective env.idFactory)
    (calls later : List (Call T F)) (e e' : Engine T F) (he : e = runCalls env p calls {})
    (he' : e' = runCalls env p later e) :
    (∀ pid s, e.states.get? pid = some s →
      s.pid = pid ∧
      s.runtimeScore = min 100 (s.runtimeIndicators.map (·.weight)).sum ∧
      s.combinedScore = min 100 (s.preExecutionScore + s.runtimeScore) ∧
      (∀ r, occurrenceNumbers s r = List.range' 1 (s.occurrences r) ∧
        (s.occurrences r : Int) ≤ (p.spec r).maxOccurrences) ∧
      (actionFor p s).rank ≤ s.recommendedAction.rank) ∧
    (e.states.size : Int) ≤ p.toPolicy.maxStates ∧
    (e.known.map (·.correlationId)).Nodup ∧
    e.archived.Sublist e.archiveLog ∧
    (∀ s ∈ e.known, ∀ s' ∈ e'.known, s'.correlationId = s.correlationId →
      s.combinedScore ≤ s'.combinedScore ∧
      s.recommendedAction.rank ≤ s'.recommendedAction.rank) ∧
    (∀ pid, e.generationsOf pid = List.range' 1 (e.generationsOf pid).length) := by
  have hinv : EngineInv env p e := he ▸ (runCalls_keeps hid calls {} initial_inv).1
  obtain ⟨hinv', hgrows⟩ : EngineInv env p e' ∧ EngineGrows e e' :=
    he' ▸ runCalls_keeps hid later e hinv
  refine ⟨fun pid s hs => ?_, hinv.bounded, hinv.distinct, List.drop_sublist .., ?_, fun pid => ?_⟩
  · have hok := hinv.ok s ((known_perm_pop hs).mem_iff.2 (List.mem_cons_self ..))
    exact ⟨hinv.live pid s hs, hok.runtime, hok.combined,
      fun r => ⟨hok.numbered r, hok.capped r⟩, hok.action⟩
  · intro s hs s' hs' hsame
    exact ⟨combined_le_of_sameId hinv hinv' hgrows hs hs' hsame,
      (hgrows.of_sameId hinv' hs hs' hsame).rank⟩
  · rw [hinv.generations pid, List.length_range']

/-- A clock that advances one second a reading, and ids of growing length. -/
def sampleEnv : Env ℤ :=
  { clock := fun n => n, idFactory := fun n => List.replicate n 97, round6 := id }

theorem sampleEnv_idFactory_injective : Function.Injective sampleEnv.idFactory := by
  intro m n h
  simpa [sampleEnv] using congrArg List.length h

/-- A fanotify record for process 7 that scores 30. -/
def sampleRecord : Mapping SampleFloat :=
  [(py "pid", .int 7), (py "score", .int 30), (py "path", .str (py "/bin/a"))]

/-- The exec event of process 7, under another name than the fanotify path. -/
def sampleExec : Mapping SampleFloat :=
  [(py "event_type", .str (py "PROCESS_EXEC")), (py "pid", .int 7), (py "timestamp_ns", .int 5),
    (py "executable_identifier", .str (py "/bin/b"))]

def sampleCalls : List (Call ℤ SampleFloat) :=
  [.registerPreExecution sampleRecord, .ingestRuntimeEvent sampleExec]

/-- The sample run leaves one live state of score 50, and the invariants apply to it. -/
theorem correlation_run_invariants_sample :
    ((runCalls sampleEnv acceptedDefaultPolicy sampleCalls {}).states.get? 7).map
        (fun s => (s.combinedScore, s.recommendedAction.rank)) = some (50, 1) ∧
      ((runCalls sampleEnv acceptedDefaultPolicy sampleCalls {}).known.map
        (·.correlationId)).Nodup :=
  ⟨by decide,
    (correlation_run_invariants sampleEnv_idFactory_injective sampleCalls [] _ _ rfl rfl).2.2.1⟩

end Elyra.Correlation
