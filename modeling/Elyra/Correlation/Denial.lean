import Elyra.Correlation.LateBinding

set_option autoImplicit false
set_option linter.unusedSectionVars false

/-! # Denied executions

A fanotify denial is recorded as the status `DENIED_PRE_EXECUTION` and the action `DENY`, the highest
rank. The action is sticky, the status is not: the `PROCESS_EXEC` branch makes any state it does not
replace `ACTIVE`, and the `PROCESS_EXIT` branch makes any state `EXITED`. A denied state that meets
one of the two keeps the action of a denial it no longer is. This file says which calls do that
(`Spares` is their negation), and that they are the only ones: a run keeps its denials terminal
exactly when all of its calls spare the denied states. -/

namespace Elyra.Correlation

open Elyra.Python

variable {T F : Type} [Zero T] [Min T] [Sub T] [LE T] [DecidableLE T] [LT T] [DecidableLT T]
variable [FloatNum F]
variable {env : Env T} {p : AcceptedPolicy T}

/-! ## One state -/

/-- A state that recommends `DENY` is denied. -/
def Unstranded (s : ExecutionState T F) : Prop :=
  s.recommendedAction = .deny → s.status = .deniedPreExecution

/-- A mutation that lifts no denial and strands no `DENY`. -/
structure KeepsDenial (s s' : ExecutionState T F) : Prop where
  correlationId : s'.correlationId = s.correlationId
  pid : s'.pid = s.pid
  denied : s.status = .deniedPreExecution → s'.status = .deniedPreExecution
  unstranded : Unstranded s → Unstranded s'

theorem KeepsDenial.refl (s : ExecutionState T F) : KeepsDenial s s := ⟨rfl, rfl, id, id⟩

theorem KeepsDenial.trans {s s' s'' : ExecutionState T F} (h : KeepsDenial s s')
    (h' : KeepsDenial s' s'') : KeepsDenial s s'' :=
  ⟨h'.correlationId.trans h.correlationId, h'.pid.trans h.pid, h'.denied ∘ h.denied,
    h'.unstranded ∘ h.unstranded⟩

/-- Mutations of the other fields. -/
theorem keepsDenial_of_fields {s s' : ExecutionState T F}
    (hid : s'.correlationId = s.correlationId) (hpid : s'.pid = s.pid)
    (hstatus : s'.status = s.status) (hact : s'.recommendedAction = s.recommendedAction) :
    KeepsDenial s s' := by
  refine ⟨hid, hpid, fun h => hstatus.trans h, ?_⟩
  intro hs hdeny
  rw [hstatus]
  exact hs (hact ▸ hdeny)

/-- A state that is not denied may change its status: it does not recommend `DENY` either. -/
theorem keepsDenial_of_not_denied {s s' : ExecutionState T F}
    (hid : s'.correlationId = s.correlationId) (hpid : s'.pid = s.pid)
    (hnot : s.status ≠ .deniedPreExecution)
    (hact : s'.recommendedAction = s.recommendedAction) : KeepsDenial s s' := by
  refine ⟨hid, hpid, fun h => absurd h hnot, ?_⟩
  intro hs hdeny
  exact absurd (hs (hact ▸ hdeny)) hnot

theorem actionFor_eq_deny {s : ExecutionState T F} (h : actionFor p s = .deny) :
    s.status = .deniedPreExecution := by
  unfold actionFor at h
  split at h
  · assumption
  · split_ifs at h

/-- `_recalculate` recommends `DENY` to denied states only. -/
theorem recalculate_keepsDenial (reason : PyStr) (s : ExecutionState T F) (reads : Nat) :
    KeepsDenial s (recalculate env p reason s reads).1 := by
  have hgrows : Grows s (recalculate env p reason s reads).1 := recalculate_grows ..
  obtain ⟨ts, h⟩ := recalculate_fst env p reason s reads
  refine ⟨hgrows.correlationId, hgrows.pid, fun hs => by rw [h]; exact hs, ?_⟩
  rw [h]
  intro hs hdeny
  simp only [escalate] at hdeny
  split at hdeny
  · exact hs hdeny
  · exact actionFor_eq_deny (p := p) (s := rescored p s) hdeny

theorem applyRule_keepsDenial (r : Rule) (evidence : Json F) (s : ExecutionState T F)
    (reads : Nat) : KeepsDenial s (applyRule env p r evidence s reads).1 := by
  unfold applyRule
  dsimp only
  split
  · exact KeepsDenial.refl s
  · refine KeepsDenial.trans ?_ (recalculate_keepsDenial r.name _ reads)
    exact keepsDenial_of_fields rfl rfl rfl rfl

theorem applyRule_status (r : Rule) (evidence : Json F) (s : ExecutionState T F) (reads : Nat) :
    (applyRule env p r evidence s reads).1.status = s.status := by
  unfold applyRule
  dsimp only
  split
  · rfl
  · exact (recalculate_same ..).status

theorem touch_keepsDenial (event : Mapping F) (now : T) (s : ExecutionState T F) :
    KeepsDenial s (touch event now s).2 := by
  unfold touch
  dsimp only
  split
  · exact keepsDenial_of_fields rfl rfl rfl rfl
  · split <;> exact keepsDenial_of_fields rfl rfl rfl rfl

theorem observeKey_keepsDenial (r : Rule) (key : PyStr) (evidence : Json F) (seen : List PyStr)
    {add : ExecutionState T F → List PyStr → ExecutionState T F} (s : ExecutionState T F)
    (hadd : ∀ seen, KeepsDenial s (add s seen)) (reads : Nat) :
    KeepsDenial s (observeKey env p r key evidence seen add s reads).1 := by
  unfold observeKey
  split
  · exact KeepsDenial.refl s
  · exact (hadd _).trans (applyRule_keepsDenial r evidence _ reads)

theorem observeWrite_keepsDenial (event : Mapping F) (s : ExecutionState T F) (reads : Nat) :
    KeepsDenial s (observeWrite env p event s reads).1 := by
  unfold observeWrite
  split
  · exact KeepsDenial.refl s
  · exact KeepsDenial.refl s
  · exact observeKey_keepsDenial _ _ _ _ s (fun _ => keepsDenial_of_fields rfl rfl rfl rfl) reads

theorem observeRename_keepsDenial (event : Mapping F) (s : ExecutionState T F) (reads : Nat) :
    KeepsDenial s (observeRename env p event s reads).1 :=
  observeKey_keepsDenial _ _ _ _ s (fun _ => keepsDenial_of_fields rfl rfl rfl rfl) reads

theorem observeConnect_keepsDenial (event : Mapping F) (s : ExecutionState T F) (reads : Nat) :
    KeepsDenial s (observeConnect env p event s reads).1 :=
  observeKey_keepsDenial _ _ _ _ s (fun _ => keepsDenial_of_fields rfl rfl rfl rfl) reads

/-- The exec branch makes the state active, which lifts a denial. -/
theorem observeExec_keepsDenial (event : Mapping F) (timestamp : Int) {s : ExecutionState T F}
    (hs : s.status ≠ .deniedPreExecution) (reads : Nat) :
    KeepsDenial s (observeExec env p event timestamp s reads).1 := by
  have hmark : KeepsDenial s (markExec event timestamp s) :=
    keepsDenial_of_not_denied rfl rfl hs rfl
  unfold observeExec
  dsimp only
  split
  · exact hmark
  · exact hmark.trans (applyRule_keepsDenial _ _ _ reads)

theorem observeExit_keepsDenial (event : Mapping F) (now : T) {s : ExecutionState T F}
    (hs : s.status ≠ .deniedPreExecution) : KeepsDenial s (observeExit event now s).2 := by
  unfold observeExit
  dsimp only
  split <;> exact keepsDenial_of_not_denied rfl rfl hs rfl

/-- Late binding may deny a state, never lift a denial. -/
theorem bindLate_keepsDenial (r : Registration F) (now : T) (s : ExecutionState T F)
    (reason : PyStr) (reads : Nat) :
    KeepsDenial s (recalculate env p reason (bindLate r now s) reads).1 := by
  refine KeepsDenial.trans ?_ (recalculate_keepsDenial reason _ reads)
  refine ⟨rfl, rfl, fun hs => ?_, fun hs hdeny => ?_⟩
  · simp [bindLate, hs]
  · have hstatus := hs hdeny
    simp [bindLate, hstatus]

/-! ## The engine -/

/-- The step strands no `DENY`, and every denied state is still there, denied. -/
def Upholds (e e' : Engine T F) : Prop :=
  (∀ s ∈ e.known, Unstranded s) →
    (∀ s ∈ e'.known, Unstranded s) ∧
      ∀ s ∈ e.known, s.status = .deniedPreExecution →
        ∃ s' ∈ e'.known, s'.correlationId = s.correlationId ∧ s'.status = .deniedPreExecution

theorem Upholds.refl (e : Engine T F) : Upholds e e :=
  fun h => ⟨h, fun s hs hden => ⟨s, hs, rfl, hden⟩⟩

theorem Upholds.trans {e e' e'' : Engine T F} (h : Upholds e e') (h' : Upholds e' e'') :
    Upholds e e'' := by
  intro hun
  obtain ⟨hun', hden⟩ := h hun
  obtain ⟨hun'', hden'⟩ := h' hun'
  refine ⟨hun'', fun s hs hs_denied => ?_⟩
  obtain ⟨s', hs', hid, hs'_denied⟩ := hden s hs hs_denied
  obtain ⟨s'', hs'', hid', hs''_denied⟩ := hden' s' hs' hs'_denied
  exact ⟨s'', hs'', hid'.trans hid, hs''_denied⟩

/-- Steps that change neither the live nor the archived states. -/
theorem upholds_of_known {e e' : Engine T F} (h : e'.known = e.known) : Upholds e e' := by
  intro hun
  rw [h]
  exact Upholds.refl e hun

theorem readClock_upholds (e : Engine T F) : Upholds e e.readClock := upholds_of_known rfl

/-- Exchanging one known state for a later version of it. -/
theorem upholds_exchange {e e' : Engine T F} {s s' : ExecutionState T F}
    {rest : List (ExecutionState T F)} (hperm : e.known.Perm (s :: rest))
    (hperm' : e'.known.Perm (s' :: rest)) (hk : KeepsDenial s s') : Upholds e e' := by
  intro hun
  refine ⟨fun x hx => ?_, fun x hx hden => ?_⟩
  · rcases List.mem_cons.1 (hperm'.mem_iff.1 hx) with rfl | hx
    · exact hk.unstranded (hun s (hperm.mem_iff.2 (List.mem_cons_self ..)))
    · exact hun x (hperm.mem_iff.2 (List.mem_cons_of_mem _ hx))
  · rcases List.mem_cons.1 (hperm.mem_iff.1 hx) with rfl | hx
    · exact ⟨s', hperm'.mem_iff.2 (List.mem_cons_self ..), hk.correlationId, hk.denied hden⟩
    · exact ⟨x, hperm'.mem_iff.2 (List.mem_cons_of_mem _ hx), rfl, hden⟩

theorem put_upholds {e : Engine T F} {s s' : ExecutionState T F} (hs : IsLive s e)
    (hk : KeepsDenial s s') : Upholds e (e.put s') := by
  have hs' : e.states.get? s'.pid = some s := by rw [hk.pid]; exact hs
  exact upholds_exchange (known_perm_pop hs') (known_perm_put hs') hk

theorem archive_upholds (e : Engine T F) (pid : Int) (reason : PyStr) :
    Upholds e (e.archive pid reason) := by
  unfold Engine.archive
  split
  · exact Upholds.refl e
  · next s hs =>
    have hk : KeepsDenial s { s with terminalReason := some reason } :=
      keepsDenial_of_fields rfl rfl rfl rfl
    refine upholds_exchange (known_perm_pop hs) ?_ hk
    simp only [Engine.known, List.append_assoc, List.singleton_append]
    exact List.perm_middle

theorem evict_upholds (p : AcceptedPolicy T) (e : Engine T F) : Upholds e (evict p e) := by
  unfold evict
  split
  · split
    · exact Upholds.refl e
    · exact archive_upholds e _ _
  · exact Upholds.refl e

theorem expire_upholds (env : Env T) (p : AcceptedPolicy T) (now : Option T) (e : Engine T F) :
    Upholds e (expire env p now e).2 := by
  have hfold : ∀ (expired : List (Int × PyStr)) (e : Engine T F),
      Upholds e (expired.foldl (fun e x => e.archive x.1 x.2) e) := by
    intro expired
    induction expired with
    | nil => exact Upholds.refl
    | cons x expired ih => exact fun e => (archive_upholds e x.1 x.2).trans (ih _)
  unfold expire
  cases now with
  | none => exact (readClock_upholds e).trans (hfold _ _)
  | some now => exact hfold _ _

theorem newState_unstranded (a : NewState F) (e : Engine T F) :
    Unstranded (newState env p a e).1 := by
  have hbuild : ∀ id generation now, Unstranded (a.build id generation now : ExecutionState T F) :=
    fun id generation now h => absurd h (by simp [NewState.build])
  exact (recalculate_keepsDenial _ _ _).unstranded (hbuild _ _ _)

theorem newState_upholds (a : NewState F) {e : Engine T F} (hnone : e.states.get? a.pid = none) :
    Upholds e (newState env p a e).2 := by
  refine (evict_upholds p e).trans ?_
  have hknown : (newState env p a e).2.known = (evict p e).known ++ [(newState env p a e).1] := by
    simp only [Engine.known, newState, values_set_new _ (get?_evict_of_none hnone),
      List.append_assoc]
  intro hun
  rw [hknown]
  refine ⟨fun x hx => ?_, fun x hx hden => ⟨x, List.mem_append_left _ hx, rfl, hden⟩⟩
  rcases List.mem_append.1 hx with hx | hx
  · exact hun x hx
  · rw [List.mem_singleton.1 hx]
    exact newState_unstranded a e

theorem newState_status (a : NewState F) (e : Engine T F) :
    (newState env p a e).1.status = a.status :=
  (recalculate_same ..).status

/-! ### The calls -/

theorem registerPreExecution_upholds {record : Mapping F} {e : Engine T F} (hk : Keyed e) :
    Upholds e (registerPreExecution env p record e).2 := by
  have hexp := (expire_frame env p 0 none hk).keyed
  refine (expire_upholds env p none e).trans ?_
  unfold registerPreExecution
  dsimp only
  split
  · exact Upholds.refl _
  · next pid _ =>
    split
    · exact Upholds.refl _
    · refine (readClock_upholds _).trans ?_
      split
      · exact Upholds.refl _
      · next r _ =>
        dsimp only [bindRegistration]
        split
        · next s hs =>
          have hpid : s.pid = pid := hexp pid s hs
          split
          · refine (put_upholds (s := s) ?_ (bindLate_keepsDenial ..)).trans (upholds_of_known rfl)
            rw [IsLive, hpid]
            exact hs
          · exact (archive_upholds _ pid _).trans
              (newState_upholds _ (get?_archive_self _ pid _))
        · next hnone => exact newState_upholds _ hnone

/-- A created state is active, and a state that was there is handed on as it is. -/
theorem runtimeState_upholds (env : Env T) (p : AcceptedPolicy T) (event : Mapping F)
    (e : Engine T F) :
    Upholds e (runtimeState env p event e).2 ∧
      ∀ s, (runtimeState env p event e).1 = .ok (some s) → s.status = .active ∨
        ∃ pid, pidOf event = .ok pid ∧ 0 < pid ∧ e.states.get? pid = some s := by
  unfold runtimeState
  split
  · exact ⟨Upholds.refl e, fun s h => absurd h (by simp)⟩
  · next pid hpid =>
    split
    · exact ⟨Upholds.refl e, fun s h => absurd h (by simp)⟩
    · next hpos =>
      split
      · next s hs =>
        refine ⟨Upholds.refl e, fun s' h => .inr ⟨pid, hpid, not_le.1 hpos, ?_⟩⟩
        simp only [Except.ok.injEq, Option.some.injEq] at h
        rw [← h, hs]
      · next hnone =>
        split
        · exact ⟨Upholds.refl e, fun s h => absurd h (by simp)⟩
        · next ppid _ =>
          have hparent : (parentOf env p ppid e).2.known = e.known ∧
              (parentOf env p ppid e).2.states = e.states := by
            unfold parentOf
            split <;> exact ⟨rfl, rfl⟩
          have hup := upholds_of_known hparent.1
          have hnone' : (parentOf env p ppid e).2.states.get? pid = none := by
            rw [hparent.2, hnone]
          generalize parentOf env p ppid e = parent at *
          dsimp only
          split
          · exact ⟨hup, fun s h => absurd h (by simp)⟩
          · next uid _ =>
            have hnew : Upholds parent.2
                (newState env p (runtimeNewState pid ppid uid parent.1) parent.2).2 :=
              newState_upholds _ hnone'
            have hstatus : (newState env p (runtimeNewState pid ppid uid parent.1)
                parent.2).1.status = .active := newState_status _ _
            have hlive := get?_newState env p (runtimeNewState pid ppid uid parent.1) parent.2
            rw [← newState_pid env p _ parent.2] at hlive
            generalize hc : createRuntimeState env p event pid ppid uid parent.1 parent.2 = c
            suffices h : Upholds parent.2 c.2 ∧ c.1.status = .active by
              refine ⟨hup.trans h.1, fun s hs => .inl ?_⟩
              simp only [Except.ok.injEq, Option.some.injEq] at hs
              exact hs ▸ h.2
            rw [← hc]
            unfold createRuntimeState
            dsimp only
            split
            · exact ⟨hnew, hstatus⟩
            · split
              · refine ⟨hnew.trans ((put_upholds hlive (applyRule_keepsDenial ..)).trans
                  (upholds_of_known rfl)), ?_⟩
                rw [applyRule_status]
                exact hstatus
              · exact ⟨hnew, hstatus⟩

/-! ### Runtime events -/

/-- The conversions of an event that stand before its branch succeed. -/
def Touches (event : Mapping F) (s : ExecutionState T F) : Prop :=
  (∃ ppid, intOr event "ppid" s.ppid = .ok ppid) ∧ ∃ uid, intOr event "uid" s.uid = .ok uid

/-- What a denied state must not meet: an exit, or an exec that does not replace the state. -/
def Lifts (event : Mapping F) (s : ExecutionState T F) : Prop :=
  kindOf event = .processExit ∨
    kindOf event = .processExec ∧ ∃ timestamp, intOr event "timestamp_ns" 0 = .ok timestamp ∧
      ∀ previous, s.execTimestampNs = some previous → timestamp ≤ previous

/-- The call does not lift a denial: if its event reaches a denied state that is live and does not
    expire first, the event is not a `PROCESS_EXIT`, and a `PROCESS_EXEC` replaces the state. -/
def Spares (env : Env T) (p : AcceptedPolicy T) (e : Engine T F) : Call T F → Prop
  | .ingestRuntimeEvent event => ∀ pid s, pidOf event = .ok pid → 0 < pid →
      e.states.get? pid = some s → expiry p (env.clock e.clockReads) s = none →
      s.status = .deniedPreExecution → Touches event s → ¬ Lifts event s
  | _ => True

theorem finishIngest_upholds (event : Mapping F) {s s' : ExecutionState T F} {e : Engine T F}
    (hlive : IsLive s e) (hk : KeepsDenial s s') (reads : Nat) :
    Upholds e (finishIngest env p event s' reads e).2 :=
  (put_upholds hlive (hk.trans (recalculate_keepsDenial _ s' reads))).trans (upholds_of_known rfl)

/-- The generation check leaves a state that the exec branch may activate. -/
theorem replaceGeneration_upholds (env : Env T) (p : AcceptedPolicy T) {event : Mapping F}
    {timestamp : Int} {s : ExecutionState T F} {e : Engine T F} (hpid : pidOf event = .ok s.pid)
    (hs : s.status = .deniedPreExecution →
      ∃ previous, s.execTimestampNs = some previous ∧ previous < timestamp) :
    Upholds e (replaceGeneration env p event timestamp s e).2 ∧
      ∀ s', (replaceGeneration env p event timestamp s e).1 = .ok (some s') →
        s'.status ≠ .deniedPreExecution := by
  have hkept : s.status ≠ .deniedPreExecution → ∀ s',
      (Except.ok (some s) : Except PyExc (Option (ExecutionState T F))) = .ok (some s') →
      s'.status ≠ .deniedPreExecution := by
    intro hnot s' h
    simp only [Except.ok.injEq, Option.some.injEq] at h
    exact h ▸ hnot
  unfold replaceGeneration
  split
  · next hexec =>
    refine ⟨Upholds.refl e, hkept fun hden => ?_⟩
    obtain ⟨previous, hprev, -⟩ := hs hden
    rw [hexec] at hprev
    exact absurd hprev (by simp)
  · next previous hexec =>
    split
    · obtain ⟨hup, hstate⟩ := runtimeState_upholds env p event
        (e.archive s.pid (py "PID_EXEC_GENERATION_REPLACED"))
      refine ⟨(archive_upholds e s.pid _).trans hup, fun s' h => ?_⟩
      rcases hstate s' h with hact | ⟨pid, hpid', -, hget⟩
      · rw [hact]
        decide
      · -- the archived process has no state, so the event's state was created
        rw [hpid, Except.ok.injEq] at hpid'
        rw [← hpid', get?_archive_self] at hget
        exact absurd hget (by simp)
    · next hlt =>
      refine ⟨Upholds.refl e, hkept fun hden => ?_⟩
      obtain ⟨previous', hprev, hlt'⟩ := hs hden
      rw [hexec, Option.some.injEq] at hprev
      exact hlt (hprev ▸ hlt')

theorem ingestKind_upholds (hid : Function.Injective env.idFactory) {event : Mapping F} (now : T)
    {s : ExecutionState T F} {e : Engine T F} (hinv : EngineInv env p e) (hlive : IsLive s e) (hpid : pidOf event = .ok s.pid)
    (hspare : s.status = .deniedPreExecution → ¬ Lifts event s) :
    Upholds e (ingestKind env p event now s e).2 := by
  unfold ingestKind
  split
  · next hkind =>
    split
    · exact Upholds.refl e
    · next timestamp htime =>
      have hs : s.status = .deniedPreExecution →
          ∃ previous, s.execTimestampNs = some previous ∧ previous < timestamp := by
        intro hden
        by_contra hno
        push Not at hno
        exact hspare hden (.inr ⟨hkind, timestamp, htime, hno⟩)
      obtain ⟨hup, hstate⟩ := replaceGeneration_upholds (e := e) env p hpid hs
      have hlive' := (replaceGeneration_keeps hid event timestamp hlive).2 hinv
      split
      · next h => rw [h] at hup; exact hup
      · next h => rw [h] at hup; exact hup
      · next s' e' h =>
        rw [h] at hup hstate hlive'
        exact hup.trans (finishIngest_upholds event (hlive' s' rfl)
          (observeExec_keepsDenial event timestamp (hstate s' rfl) _) _)
  · exact finishIngest_upholds event hlive (observeWrite_keepsDenial ..) _
  · exact finishIngest_upholds event hlive (observeRename_keepsDenial ..) _
  · exact finishIngest_upholds event hlive (observeConnect_keepsDenial ..) _
  · next hkind =>
    have hnot : s.status ≠ .deniedPreExecution := fun hden => hspare hden (.inl hkind)
    have hk := observeExit_keepsDenial event now hnot
    split
    · next h => rw [h] at hk; exact put_upholds hlive hk
    · next h => rw [h] at hk; exact finishIngest_upholds event hlive hk _
  · exact finishIngest_upholds event hlive (KeepsDenial.refl s) _

theorem touch_fields (event : Mapping F) (now : T) (s : ExecutionState T F) :
    (touch event now s).2.status = s.status ∧
      (touch event now s).2.recommendedAction = s.recommendedAction ∧
      (touch event now s).2.execTimestampNs = s.execTimestampNs ∧
      ((touch event now s).1 = .ok () ↔ Touches event s) := by
  unfold touch Touches
  dsimp only
  cases hppid : intOr event "ppid" s.ppid with
  | error x => simp
  | ok ppid =>
      dsimp only
      cases huid : intOr event "uid" s.uid with
      | error x => simp
      | ok uid => simp

/-- The state of an event is the state of its process. -/
theorem runtimeState_pid (env : Env T) (p : AcceptedPolicy T) (event : Mapping F) {e : Engine T F}
    (hk : Keyed e) (s : ExecutionState T F)
    (hs : (runtimeState env p event e).1 = .ok (some s)) : pidOf event = .ok s.pid := by
  by_contra hne
  exact (runtimeState_frame env p hne hk).2 s hs rfl

theorem ingestRuntimeEvent_upholds (hid : Function.Injective env.idFactory) {event : Mapping F}
    {e : Engine T F} (hinv : EngineInv env p e)
    (hspare : Spares env p e (.ingestRuntimeEvent event)) :
    Upholds e (ingestRuntimeEvent env p event e).2 := by
  have hinv₁ := (expire_keeps none e hinv).1
  refine (expire_upholds env p none e).trans ?_
  unfold ingestRuntimeEvent
  dsimp only
  obtain ⟨hup, hstate⟩ := runtimeState_upholds env p event (expire env p none e).2
  obtain ⟨hkeep, hlive⟩ := runtimeState_keeps (p := p) hid event (expire env p none e).2
  have hpid := runtimeState_pid env p event hinv₁.live
  split
  · next h => rw [h] at hup; exact hup
  · next h => rw [h] at hup; exact hup
  · next s e' h =>
    rw [h] at hup hstate hkeep hlive hpid
    have hs : IsLive s e'.readClock := hlive hinv₁ s rfl
    have hinv' := (readClock_keeps e' ((hkeep hinv₁).1)).1
    refine (hup.trans (readClock_upholds e')).trans ?_
    have hk := touch_keepsDenial event (env.clock e'.clockReads) s
    have ha := touch_advance (p := p) event (env.clock e'.clockReads) s
    obtain ⟨hstatus, -, hexec, hok⟩ := touch_fields event (env.clock e'.clockReads) s
    split
    · next ht => rw [ht] at hk; exact put_upholds hs hk
    · next s' ht =>
      rw [ht] at hk ha hstatus hexec hok
      refine (put_upholds hs hk).trans (ingestKind_upholds hid _ (put_keeps hs ha hinv').1
        (get?_put_self _ _) ?_ ?_)
      · rw [hk.pid]
        exact hpid s rfl
      · intro hden hlift
        rw [hstatus] at hden
        rcases hstate s rfl with hact | ⟨pid, hpid', hpos, hget⟩
        · rw [hact] at hden
          exact absurd hden (by decide)
        · -- the state was live before the call and did not expire
          rw [get?_expire, Option.filter_eq_some_iff, Option.isNone_iff_eq_none] at hget
          refine hspare pid s hpid' hpos hget.1 hget.2 hden (hok.1 rfl) ?_
          have hexec' : s'.execTimestampNs = s.execTimestampNs := hexec
          simpa only [Lifts, hexec'] using hlift

theorem recordActionResult_upholds {e : Engine T F} (hk : Keyed e) (pid : Int) (id : PyStr)
    (result : Mapping F) : Upholds e (recordActionResult env pid id result e).2 := by
  unfold recordActionResult
  split
  · exact Upholds.refl e
  · next s hs =>
    split
    · exact Upholds.refl e
    · refine (readClock_upholds e).trans (put_upholds (s := s) ?_ ?_)
      · rw [IsLive, hk pid s hs]
        exact hs
      · exact keepsDenial_of_fields rfl rfl rfl rfl

/-- One call that spares the denied states. -/
theorem perform_upholds (hid : Function.Injective env.idFactory) {c : Call T F} {e : Engine T F}
    (hinv : EngineInv env p e) (hspare : Spares env p e c) : Upholds e (perform env p c e).2 := by
  cases c with
  | registerPreExecution record => exact registerPreExecution_upholds hinv.live
  | ingestRuntimeEvent event => exact ingestRuntimeEvent_upholds hid hinv hspare
  | expire now => exact expire_upholds env p now e
  | recordActionResult pid id result => exact recordActionResult_upholds hinv.live pid id result

/-! ### Calls that lift a denial -/

/-- An event of a live process whose state does not expire first is handed to its branch, with the
    touched state. -/
theorem ingestRuntimeEvent_of_live (env : Env T) (p : AcceptedPolicy T) {event : Mapping F}
    {e : Engine T F} {pid : Int} {s : ExecutionState T F} (hpid : pidOf event = .ok pid)
    (hpos : 0 < pid) (hget : e.states.get? pid = some s)
    (hexp : expiry p (env.clock e.clockReads) s = none) (htouch : Touches event s) :
    ∃ now s₁ e₁, s₁ = (touch event now s).2 ∧ e₁.states.get? s₁.pid = some s₁ ∧
      ingestRuntimeEvent env p event e = ingestKind env p event now s₁ e₁ := by
  have hget₁ : (expire env p none e).2.states.get? pid = some s := by
    rw [get?_expire, hget]
    simp [Option.filter, hexp]
  have hrun : runtimeState env p event (expire env p none e).2 =
      (.ok (some s), (expire env p none e).2) := by
    simp only [runtimeState, hpid, if_neg (not_le.2 hpos), hget₁]
  have hok := (touch_fields event (env.clock (expire env p none e).2.clockReads) s).2.2.2.2 htouch
  refine ⟨env.clock (expire env p none e).2.clockReads, _, _, rfl,
    get?_put_self (expire env p none e).2.readClock _, ?_⟩
  simp only [ingestRuntimeEvent, hrun]
  split
  · next x s' h => exact absurd (hok.symm.trans (congrArg Prod.fst h)) (by simp)
  · next s' h => rw [h]

/-- `DENY` is the highest rank, so it stays. -/
theorem recalculate_deny (reason : PyStr) {s : ExecutionState T F} (reads : Nat)
    (h : s.recommendedAction = .deny) :
    (recalculate env p reason s reads).1.recommendedAction = .deny := by
  have hgrows : Grows s (recalculate env p reason s reads).1 := recalculate_grows ..
  have hrank := hgrows.rank
  rw [h] at hrank
  cases hact : (recalculate env p reason s reads).1.recommendedAction <;>
    simp [hact, Action.rank] at hrank ⊢

theorem finishIngest_live (env : Env T) (p : AcceptedPolicy T) (event : Mapping F)
    (s : ExecutionState T F) (reads : Nat) (e : Engine T F) :
    (finishIngest env p event s reads e).2.states.get? s.pid =
      some (recalculate env p (eventReason event) s reads).1 := by
  have hpid : (recalculate env p (eventReason event) s reads).1.pid = s.pid :=
    (recalculate_grows ..).pid
  rw [← hpid]
  exact get?_put_self _ _

/-- The exit branch on a denied state leaves an exited state that recommends `DENY`. -/
theorem exit_strands (env : Env T) (p : AcceptedPolicy T) {event : Mapping F} (hkind : kindOf event = .processExit) (now : T)
    {s : ExecutionState T F} (hdeny : s.recommendedAction = .deny) (e : Engine T F) :
    ∃ s', (ingestKind env p event now s e).2.states.get? s.pid = some s' ∧
      s'.recommendedAction = .deny ∧ s'.status = .exited := by
  have hfields : (observeExit event now s).2.pid = s.pid ∧
      (observeExit event now s).2.recommendedAction = .deny ∧
      (observeExit event now s).2.status = .exited := by
    unfold observeExit
    dsimp only
    split <;> exact ⟨rfl, hdeny, rfl⟩
  obtain ⟨hpid, hact, hstatus⟩ := hfields
  simp only [ingestKind, hkind]
  split
  · next x s' h =>
    rw [h] at hpid hact hstatus
    exact ⟨s', by rw [← hpid]; exact get?_put_self _ _, hact, hstatus⟩
  · next s' h =>
    rw [h] at hpid hact hstatus
    refine ⟨_, by rw [← hpid]; exact finishIngest_live .., recalculate_deny _ _ hact, ?_⟩
    exact (recalculate_same ..).status.trans hstatus

/-- The exec branch on a state that it does not replace activates it under the same id. -/
theorem exec_activates_kept (env : Env T) (p : AcceptedPolicy T) {event : Mapping F}
    (hkind : kindOf event = .processExec) (now : T) {timestamp : Int} (htime : intOr event "timestamp_ns" 0 = .ok timestamp)
    {s : ExecutionState T F}
    (hkept : ∀ previous, s.execTimestampNs = some previous → timestamp ≤ previous)
    (e : Engine T F) :
    ∃ s', (ingestKind env p event now s e).2.states.get? s.pid = some s' ∧
      s'.correlationId = s.correlationId ∧ s'.status = .active := by
  have hrep : replaceGeneration env p event timestamp s e = (.ok (some s), e) := by
    unfold replaceGeneration
    split
    · rfl
    · next previous hprev => rw [if_neg (not_lt.2 (hkept previous hprev))]
  have hadv : Advance p s (observeExec env p event timestamp s e.clockReads).1 :=
    observeExec_advance ..
  have hstatus : (observeExec env p event timestamp s e.clockReads).1.status = .active := by
    unfold observeExec
    dsimp only
    split
    · rfl
    · exact applyRule_status ..
  simp only [ingestKind, hkind, htime, hrep]
  refine ⟨_, by rw [← hadv.grows.pid]; exact finishIngest_live .., ?_, ?_⟩
  · exact (recalculate_grows ..).correlationId.trans hadv.grows.correlationId
  · exact (recalculate_same ..).status.trans hstatus

/-- A call that does not spare a denied state makes it active, or strands its `DENY`. -/
theorem lifted_of_not_spares {c : Call T F} {e : Engine T F} (hinv : EngineInv env p e)
    (h : ¬ Spares env p e c) :
    ∃ pid s s', e.states.get? pid = some s ∧ s.status = .deniedPreExecution ∧
      (perform env p c e).2.states.get? pid = some s' ∧
      (s'.correlationId = s.correlationId ∧ s'.status = .active ∨
        s'.recommendedAction = .deny ∧ s'.status = .exited) := by
  cases c with
  | ingestRuntimeEvent event =>
      simp only [Spares, not_forall, not_not] at h
      obtain ⟨pid, s, hpid, hpos, hget, hexp, hden, htouch, hlift⟩ := h
      have hok := hinv.ok s ((known_perm_pop hget).mem_iff.2 (List.mem_cons_self ..))
      have hdeny : s.recommendedAction = .deny := by
        have hact := hok.action
        rw [actionFor, if_pos hden] at hact
        cases hrec : s.recommendedAction <;> simp [hrec, Action.rank] at hact ⊢
      obtain ⟨now, s₁, e₁, rfl, hlive, heq⟩ :=
        ingestRuntimeEvent_of_live env p hpid hpos hget hexp htouch
      have hk := touch_keepsDenial event now s
      have hpid₁ : (touch event now s).2.pid = pid := hk.pid.trans (hinv.live pid s hget)
      obtain ⟨-, haction, hexec, -⟩ := touch_fields event now s
      refine ⟨pid, s, ?_⟩
      simp only [perform, heq]
      rcases hlift with hkind | ⟨hkind, timestamp, htime, hkept⟩
      · obtain ⟨s', hs', hres⟩ := exit_strands env p hkind now
          (haction.trans hdeny) e₁
        exact ⟨s', hget, hden, hpid₁ ▸ hs', .inr hres⟩
      · obtain ⟨s', hs', hid', hact⟩ := exec_activates_kept env p hkind now htime
          (hexec.symm ▸ hkept) e₁
        exact ⟨s', hget, hden, hpid₁ ▸ hs', .inl ⟨hid'.trans hk.correlationId, hact⟩⟩
  | registerPreExecution record => exact absurd trivial h
  | expire now => exact absurd trivial h
  | recordActionResult pid id result => exact absurd trivial h

/-! ## Runs -/

/-- The engine after the first `n` calls of a run. -/
def after (env : Env T) (p : AcceptedPolicy T) (calls : List (Call T F)) (n : Nat) : Engine T F :=
  runCalls env p (calls.take n) {}

theorem after_succ {calls : List (Call T F)} {n : Nat} (h : n < calls.length) :
    after env p calls (n + 1) = (perform env p (calls.get ⟨n, h⟩) (after env p calls n)).2 := by
  simp only [after, runCalls, List.take_succ_eq_append_getElem h, List.foldl_append,
    List.foldl_cons, List.foldl_nil, List.get_eq_getElem]

theorem after_inv (hid : Function.Injective env.idFactory) (calls : List (Call T F)) (n : Nat) :
    EngineInv env p (after env p calls n) :=
  (runCalls_keeps hid _ _ initial_inv).1

/-- Every call of the run spares the denied states. -/
def SparesDenied (env : Env T) (p : AcceptedPolicy T) (calls : List (Call T F)) : Prop :=
  ∀ n (h : n < calls.length), Spares env p (after env p calls n) (calls.get ⟨n, h⟩)

/-- The denials of a run are terminal: a generation that was denied is never active later on, and a
    live state recommends `DENY` only while it is denied. -/
def DenialTerminal (env : Env T) (p : AcceptedPolicy T) (calls : List (Call T F)) : Prop :=
  (∀ m n, m ≤ n → n ≤ calls.length → ∀ s ∈ (after env p calls m).known,
    s.status = .deniedPreExecution → ∀ s' ∈ (after env p calls n).known,
    s'.correlationId = s.correlationId → s'.status ≠ .active) ∧
  ∀ n ≤ calls.length, ∀ pid s, (after env p calls n).states.get? pid = some s →
    s.recommendedAction = .deny → s.status = .deniedPreExecution

/-- Along a sparing run nothing is stranded, and denied states stay denied. -/
theorem after_upholds (hid : Function.Injective env.idFactory) {calls : List (Call T F)}
    (h : SparesDenied env p calls) {m n : Nat} (hmn : m ≤ n) (hn : n ≤ calls.length) :
    Upholds (after env p calls m) (after env p calls n) := by
  induction n, hmn using Nat.le_induction with
  | base => exact Upholds.refl _
  | succ n hmn ih =>
      rw [after_succ hn]
      exact (ih (by omega)).trans (perform_upholds hid (after_inv hid calls n) (h n hn))

theorem denialTerminal_of_spares (hid : Function.Injective env.idFactory)
    {calls : List (Call T F)} (h : SparesDenied env p calls) : DenialTerminal env p calls := by
  have hinit : ∀ s ∈ (after env p calls 0).known, Unstranded s := by
    intro s hs
    exact absurd hs (by simp [after, runCalls, Engine.known, Dict.values, Dict.empty])
  have hun : ∀ n ≤ calls.length, ∀ s ∈ (after env p calls n).known, Unstranded s :=
    fun n hn => (after_upholds hid h (Nat.zero_le n) hn hinit).1
  constructor
  · intro m n hmn hn s hs hden s' hs' hsame
    obtain ⟨s'', hs'', hid', hden'⟩ :=
      (after_upholds hid h hmn hn (hun m (hmn.trans hn))).2 s hs hden
    -- a correlation id has one known state
    have heq : s' = s'' := List.inj_on_of_nodup_map (after_inv hid calls n).distinct hs' hs''
      (hsame.trans hid'.symm)
    rw [heq, hden']
    decide
  · intro n hn pid s hs
    exact hun n hn s ((known_perm_pop hs).mem_iff.2 (List.mem_cons_self ..))

/-- **When denials are terminal.** In a run of the correlation engine, a denied generation is never
    active later on and a live `DENY` belongs to a denied state exactly when no call of the run
    hands a `PROCESS_EXIT`, or a `PROCESS_EXEC` that does not start a new generation, to a live
    denied state. -/
theorem denial_terminal_iff (hid : Function.Injective env.idFactory) (calls : List (Call T F)) :
    DenialTerminal env p calls ↔ SparesDenied env p calls := by
  refine ⟨fun hterm n hn => ?_, denialTerminal_of_spares hid⟩
  by_contra hno
  obtain ⟨pid, s, s', hs, hden, hs', hbad⟩ :=
    lifted_of_not_spares (after_inv hid calls n) hno
  rw [← after_succ hn] at hs'
  have hmem : s ∈ (after env p calls n).known :=
    (known_perm_pop hs).mem_iff.2 (List.mem_cons_self ..)
  have hmem' : s' ∈ (after env p calls (n + 1)).known :=
    (known_perm_pop hs').mem_iff.2 (List.mem_cons_self ..)
  rcases hbad with ⟨hsame, hact⟩ | ⟨hdeny, hexit⟩
  · exact hterm.1 n (n + 1) (Nat.le_succ n) hn s hmem hden s' hmem' hsame hact
  · have hden' := hterm.2 (n + 1) hn pid s' hs' hdeny
    rw [hexit] at hden'
    exact absurd hden' (by decide)

/-! ### A denied process that executes something else -/

/-- The kernel refused process 7 the execution of `/tmp/a`. -/
def deniedRecord : Mapping SampleFloat :=
  [(py "pid", .int 7), (py "score", .int 95), (py "path", .str (py "/tmp/a")),
    (py "requested_decision", .str (py "DENY")), (py "final_action", .str (py "DENY"))]

/-- The denied process writes a file. -/
def sampleWrite : Mapping SampleFloat :=
  [(py "event_type", .str (py "FILE_WRITE")), (py "tgid", .int 7), (py "pid", .int 7),
    (py "timestamp_ns", .int 6), (py "distinct_file_key", .str (py "1:2"))]

/-- A write leaves the denial alone. -/
theorem denial_terminal_of_write :
    DenialTerminal sampleEnv acceptedDefaultPolicy
      [.registerPreExecution deniedRecord, .ingestRuntimeEvent sampleWrite] := by
  rw [denial_terminal_iff sampleEnv_idFactory_injective]
  intro n hn
  match n, hn with
  | 0, _ => exact trivial
  | 1, _ =>
      intro pid s _ _ _ _ _ _ hlift
      have hkind : kindOf sampleWrite = .fileWrite := rfl
      simp [Lifts, hkind] at hlift

/-- Its next exec, of another file, makes the denied state active under the same id, with the
    recommendation `DENY`. -/
theorem exec_of_denied_process :
    ((after sampleEnv acceptedDefaultPolicy
        [.registerPreExecution deniedRecord, .ingestRuntimeEvent sampleExec] 1).states.get? 7).map
      (fun s => (s.correlationId, s.status, s.recommendedAction)) =
        some ([], .deniedPreExecution, .deny) ∧
    ((after sampleEnv acceptedDefaultPolicy
        [.registerPreExecution deniedRecord, .ingestRuntimeEvent sampleExec] 2).states.get? 7).map
      (fun s => (s.correlationId, s.status, s.recommendedAction)) = some ([], .active, .deny) ∧
    ¬ DenialTerminal sampleEnv acceptedDefaultPolicy
      [.registerPreExecution deniedRecord, .ingestRuntimeEvent sampleExec] := by
  have hlast : ((after sampleEnv acceptedDefaultPolicy
      [.registerPreExecution deniedRecord, .ingestRuntimeEvent sampleExec] 2).states.get? 7).map
        (fun s => (s.correlationId, s.status, s.recommendedAction)) =
          some ([], .active, .deny) := by decide
  refine ⟨by decide, hlast, fun hterm => ?_⟩
  obtain ⟨s, hs, hfields⟩ := Option.map_eq_some_iff.1 hlast
  simp only [Prod.mk.injEq] at hfields
  have hden := hterm.2 2 (by simp) 7 s hs hfields.2.2
  rw [hfields.2.1] at hden
  exact absurd hden (by decide)

end Elyra.Correlation
