import Elyra.Correlation.PidReuse
import Elyra.Ebpf.Event

set_option autoImplicit false
set_option linter.unusedSectionVars false

/-! # Threads that exit

The probe on `sched_process_exit` fires for every thread, and the correlation engine keys its states
by thread group, so the exit of a worker thread marks the state of the whole process `EXITED`. From
then on the shorter time to live of exited states applies to a process that goes on running, and once
it is over the next event starts a new state with no score. This file follows the state of one thread
group through a run and says exactly when it survives.

The time to live is the only way to lose the state: eviction needs `max_states` other processes, and
`Undisturbed` is what a call of another process leaves of the state. -/

namespace Elyra.Correlation

open Elyra.Python Elyra.Ebpf

variable {T F : Type} [Zero T] [Min T] [Sub T] [LE T] [DecidableLE T] [LT T] [DecidableLT T]
variable [FloatNum F]
variable {env : Env T} {p : AcceptedPolicy T}

/-! ## Other processes -/

/-- The processes other than `t` the engine has had a state for. -/
def othersSeen (t : Int) (e : Engine T F) : Finset Int :=
  (keys e.generationByPid.items).toFinset.erase t

/-- As many other processes as the table holds. -/
def Crowded (p : AcceptedPolicy T) (t : Int) (e : Engine T F) : Prop :=
  p.toPolicy.maxStates ≤ (othersSeen t e).card

/-- The step leaves the state of `t` alone, unless the table is full with other processes. -/
structure Undisturbed (p : AcceptedPolicy T) (t : Int) (e e' : Engine T F) : Prop where
  entry : e'.states.get? t = e.states.get? t ∨ Crowded p t e'
  seen : othersSeen t e ⊆ othersSeen t e'

theorem Crowded.mono {t : Int} {e e' : Engine T F} (h : Crowded p t e)
    (hseen : othersSeen t e ⊆ othersSeen t e') : Crowded p t e' := by
  have hcard := Finset.card_le_card hseen
  unfold Crowded at h ⊢
  omega

theorem Undisturbed.trans {t : Int} {e e' e'' : Engine T F} (h : Undisturbed p t e e')
    (h' : Undisturbed p t e' e'') : Undisturbed p t e e'' := by
  refine ⟨?_, h.seen.trans h'.seen⟩
  rcases h'.entry with hsame' | hfull
  · rcases h.entry with hsame | hfull
    · exact .inl (hsame'.trans hsame)
    · exact .inr (hfull.mono h'.seen)
  · exact .inr hfull

theorem undisturbed_of_eq {t : Int} {e e' : Engine T F} (hstates : e'.states = e.states)
    (hgen : e'.generationByPid = e.generationByPid) : Undisturbed p t e e' := by
  refine ⟨.inl (by rw [hstates]), ?_⟩
  rw [othersSeen, othersSeen, hgen]

theorem Undisturbed.refl {t : Int} (e : Engine T F) : Undisturbed p t e e :=
  undisturbed_of_eq rfl rfl

theorem put_undisturbed {t : Int} (e : Engine T F) {s : ExecutionState T F} (hs : s.pid ≠ t) :
    Undisturbed p t e (e.put s) :=
  ⟨.inl (Dict.get?_set_ne _ (Ne.symm hs) _), subset_rfl⟩

theorem archive_undisturbed {t pid : Int} (hne : pid ≠ t) (e : Engine T F) (reason : PyStr) :
    Undisturbed p t e (e.archive pid reason) := by
  refine ⟨.inl (get?_archive_ne e (Ne.symm hne) reason), ?_⟩
  unfold Engine.archive
  split <;> exact subset_rfl

theorem archive_generationByPid (e : Engine T F) (pid : Int) (reason : PyStr) :
    (e.archive pid reason).generationByPid = e.generationByPid := by
  unfold Engine.archive
  split <;> rfl

theorem evict_generationByPid (p : AcceptedPolicy T) (e : Engine T F) :
    (evict p e).generationByPid = e.generationByPid := by
  unfold evict
  split
  · split
    · rfl
    · exact archive_generationByPid ..
  · rfl

/-- A process with a state has a generation. -/
theorem generation_of_live {e : Engine T F} (hinv : EngineInv env p e) {pid : Int}
    {s : ExecutionState T F} (hs : e.states.get? pid = some s) :
    pid ∈ keys e.generationByPid.items := by
  by_contra hno
  have hnone : e.generationByPid.get? pid = none := lookup_eq_none_iff.2 hno
  have hgen := hinv.generations pid
  rw [hnone, Engine.generationsOf, hs] at hgen
  simp at hgen

/-- Evicting the state of `t` takes a table full of other processes. -/
theorem newState_undisturbed {t : Int} {a : NewState F} (ha : a.pid ≠ t) {e : Engine T F}
    (hinv : EngineInv env p e) (hnone : e.states.get? a.pid = none) :
    Undisturbed p t e (newState env p a e).2 := by
  have hkeys : keys (newState env p a e).2.generationByPid.items =
      keys (assign a.pid ((evict p e).nextGeneration a.pid) e.generationByPid.items) := by
    rw [← evict_generationByPid p e]
    rfl
  have hseen : ∀ pid ∈ keys e.generationByPid.items,
      pid ∈ keys (newState env p a e).2.generationByPid.items := by
    intro pid hpid
    rw [hkeys, keys_assign]
    split
    · exact hpid
    · exact List.mem_append_left _ hpid
  have hself : a.pid ∈ keys (newState env p a e).2.generationByPid.items := by
    rw [hkeys, keys_assign]
    split
    · assumption
    · simp
  refine ⟨?_, ?_⟩
  · have hset : (newState env p a e).2.states.get? t = (evict p e).states.get? t :=
      Dict.get?_set_ne _ (Ne.symm ha) _
    rw [hset]
    by_cases hroom : p.toPolicy.maxStates ≤ e.states.size
    · -- all live processes but `t`, and the new one
      refine .inr ?_
      have hsub : insert a.pid ((keys e.states.items).toFinset.erase t) ⊆
          othersSeen t (newState env p a e).2 := by
        intro pid hpid
        rw [othersSeen, Finset.mem_erase, List.mem_toFinset]
        rcases Finset.mem_insert.1 hpid with rfl | hpid
        · exact ⟨ha, hself⟩
        · rw [Finset.mem_erase, List.mem_toFinset] at hpid
          obtain ⟨kv, hkv, rfl⟩ := List.mem_map.1 hpid.2
          exact ⟨hpid.1, hseen _ (generation_of_live hinv (Dict.mem_items.1 hkv))⟩
      have hfresh : a.pid ∉ (keys e.states.items).toFinset.erase t := by
        rw [Finset.mem_erase, List.mem_toFinset]
        exact fun h => lookup_eq_none_iff.1 hnone h.2
      have hcard := Finset.card_le_card hsub
      rw [Finset.card_insert_of_notMem hfresh] at hcard
      have herase := Finset.pred_card_le_card_erase (s := (keys e.states.items).toFinset) (a := t)
      rw [List.toFinset_card_of_nodup e.states.nodup] at herase
      have hsize : (keys e.states.items).length = e.states.size := List.length_map ..
      unfold Crowded
      omega
    · rw [evict, if_neg hroom]
      exact .inl rfl
  · intro pid hpid
    rw [othersSeen, Finset.mem_erase, List.mem_toFinset] at hpid ⊢
    exact ⟨hpid.1, hseen pid hpid.2⟩

/-- A record of another process, once the expired states are gone. -/
theorem registerPreExecution_undisturbed {t : Int} {record : Mapping F}
    (hne : pidOf record ≠ .ok t) {e : Engine T F} (hinv : EngineInv env p e) :
    Undisturbed p t (expire env p none e).2 (registerPreExecution env p record e).2 := by
  have hinv₁ := (expire_keeps none e hinv).1
  unfold registerPreExecution
  dsimp only
  generalize (expire env p none e).2 = e₁ at *
  split
  · exact Undisturbed.refl e₁
  · next pid hpid =>
    split
    · exact Undisturbed.refl e₁
    · have hread : Undisturbed p t e₁ e₁.readClock := undisturbed_of_eq rfl rfl
      have hne' : pid ≠ t := fun heq => hne (heq ▸ hpid)
      have hinv₂ := (readClock_keeps e₁ hinv₁).1
      refine hread.trans ?_
      split
      · exact Undisturbed.refl _
      · next r hr =>
        generalize env.clock e₁.clockReads = now
        generalize e₁.readClock = e₂ at *
        unfold bindRegistration
        split
        · next s hs =>
          split
          · have hspid : (recalculate env p (py "FANOTIFY_LATE_BINDING") (bindLate r now s)
                e₂.clockReads).1.pid = pid := (recalculate_grows ..).pid.trans (hinv₂.live pid s hs)
            exact (put_undisturbed e₂ (hspid ▸ hne')).trans (undisturbed_of_eq rfl rfl)
          · have hinv₃ := (archive_keeps e₂ pid
              (py "SUPERSEDED_BY_NEW_PRE_EXECUTION") hinv₂).1
            exact (archive_undisturbed hne' e₂ _).trans
              (newState_undisturbed hne' hinv₃ (get?_archive_self ..))
        · next hnone => exact newState_undisturbed hne' hinv₂ hnone

theorem createRuntimeState_undisturbed {t pid : Int} (hne : pid ≠ t) (event : Mapping F)
    (ppid uid : Int) (parent : Option PyStr) {e : Engine T F} (hinv : EngineInv env p e)
    (hnone : e.states.get? pid = none) :
    Undisturbed p t e (createRuntimeState env p event pid ppid uid parent e).2 := by
  have hnew : Undisturbed p t e (newState env p (runtimeNewState pid ppid uid parent) e).2 :=
    newState_undisturbed hne hinv hnone
  unfold createRuntimeState
  dsimp only
  split
  · exact hnew
  · split
    · refine (hnew.trans (put_undisturbed _ ?_)).trans (undisturbed_of_eq rfl rfl)
      rw [(applyRule_advance ..).grows.pid, newState_pid]
      exact hne
    · exact hnew

theorem runtimeState_undisturbed {t : Int} {event : Mapping F} (hne : pidOf event ≠ .ok t)
    {e : Engine T F} (hinv : EngineInv env p e) :
    Undisturbed p t e (runtimeState env p event e).2 := by
  unfold runtimeState
  split
  · exact Undisturbed.refl e
  · next pid hpid =>
    have hne' : pid ≠ t := fun heq => hne (heq ▸ hpid)
    split
    · exact Undisturbed.refl e
    · split
      · exact Undisturbed.refl e
      · next hnone =>
        split
        · exact Undisturbed.refl e
        · next ppid _ =>
          obtain ⟨hkeep, hstates⟩ := parentOf_keeps env p ppid e
          have hparent : Undisturbed p t e (parentOf env p ppid e).2 := by
            refine undisturbed_of_eq hstates ?_
            unfold parentOf
            split <;> rfl
          dsimp only
          split
          · exact hparent
          · exact hparent.trans (createRuntimeState_undisturbed hne' _ _ _ _ (hkeep hinv).1
              (hstates ▸ hnone))

theorem finishIngest_undisturbed {t : Int} (event : Mapping F) {s s' : ExecutionState T F}
    (hs : s.pid ≠ t) (ha : Advance p s s') (reads : Nat) (e : Engine T F) :
    Undisturbed p t e (finishIngest env p event s' reads e).2 := by
  have hpid : (recalculate env p (eventReason event) s' reads).1.pid ≠ t := by
    rw [(recalculate_grows ..).pid, ha.grows.pid]
    exact hs
  exact (put_undisturbed e hpid).trans (undisturbed_of_eq rfl rfl)

theorem replaceGeneration_undisturbed {t : Int} {event : Mapping F} (hne : pidOf event ≠ .ok t)
    (timestamp : Int) {s : ExecutionState T F} (hs : s.pid ≠ t) {e : Engine T F}
    (hinv : EngineInv env p e) :
    Undisturbed p t e (replaceGeneration env p event timestamp s e).2 := by
  unfold replaceGeneration
  split
  · exact Undisturbed.refl e
  · split
    · have harch := archive_keeps e s.pid (py "PID_EXEC_GENERATION_REPLACED") hinv
      exact (archive_undisturbed hs e _).trans (runtimeState_undisturbed hne harch.1)
    · exact Undisturbed.refl e

theorem ingestKind_undisturbed {t : Int} {event : Mapping F} (hne : pidOf event ≠ .ok t) (now : T)
    {s : ExecutionState T F} (hs : s.pid ≠ t) {e : Engine T F} (hinv : EngineInv env p e) :
    Undisturbed p t e (ingestKind env p event now s e).2 := by
  unfold ingestKind
  split
  · split
    · exact Undisturbed.refl e
    · next timestamp _ =>
      have hrep := replaceGeneration_undisturbed hne timestamp hs hinv
      have hrep' := (replaceGeneration_frame env p hne timestamp hs hinv.live).2
      split
      · next heq => rw [heq] at hrep; exact hrep
      · next heq => rw [heq] at hrep; exact hrep
      · next s' e' heq =>
        rw [heq] at hrep hrep'
        exact hrep.trans (finishIngest_undisturbed event (hrep' s' rfl) (observeExec_advance ..) _ _)
  · exact finishIngest_undisturbed event hs (observeWrite_advance ..) _ _
  · exact finishIngest_undisturbed event hs (observeRename_advance ..) _ _
  · exact finishIngest_undisturbed event hs (observeConnect_advance ..) _ _
  · have ha := observeExit_advance (p := p) event now s
    split
    · next heq =>
      rw [heq] at ha
      exact put_undisturbed e (by rw [ha.grows.pid]; exact hs)
    · next heq => rw [heq] at ha; exact finishIngest_undisturbed event hs ha _ _
  · exact finishIngest_undisturbed event hs (Advance.refl s) _ _

/-- An event of another process, once the expired states are gone. -/
theorem ingestRuntimeEvent_undisturbed (hid : Function.Injective env.idFactory) {t : Int}
    {event : Mapping F} (hne : pidOf event ≠ .ok t) {e : Engine T F} (hinv : EngineInv env p e) :
    Undisturbed p t (expire env p none e).2 (ingestRuntimeEvent env p event e).2 := by
  have hinv₁ := (expire_keeps none e hinv).1
  unfold ingestRuntimeEvent
  dsimp only
  generalize (expire env p none e).2 = e₁ at *
  have hrun := runtimeState_undisturbed hne hinv₁
  have hother := (runtimeState_frame env p hne hinv₁.live).2
  obtain ⟨hkeep, hlive⟩ := runtimeState_keeps (p := p) hid event e₁
  split
  · next heq => rw [heq] at hrun; exact hrun
  · next heq => rw [heq] at hrun; exact hrun
  · next s e' heq =>
    rw [heq] at hrun hother hkeep hlive
    have hs := hother s rfl
    have hread : Undisturbed p t e' e'.readClock := undisturbed_of_eq rfl rfl
    have hinv₂ := (readClock_keeps e' (hkeep hinv₁).1).1
    have ha := touch_advance (p := p) event (env.clock e'.clockReads) s
    refine (hrun.trans hread).trans ?_
    split
    · next ht =>
      rw [ht] at ha
      exact put_undisturbed _ (by rw [ha.grows.pid]; exact hs)
    · next s' ht =>
      rw [ht] at ha
      have hs' : s'.pid ≠ t := by rw [ha.grows.pid]; exact hs
      have hs₂ : IsLive s e'.readClock := hlive hinv₁ s rfl
      have hinv₃ := (put_keeps hs₂ ha hinv₂).1
      exact (put_undisturbed _ hs').trans (ingestKind_undisturbed hne _ hs' hinv₃)

/-! ## Events of the thread group -/

theorem observeKey_lastSeen (r : Rule) (key : PyStr) (evidence : Json F) (seen : List PyStr)
    {add : ExecutionState T F → List PyStr → ExecutionState T F} (s : ExecutionState T F)
    (hadd : ∀ seen, (add s seen).lastSeenMonotonic = s.lastSeenMonotonic) (reads : Nat) :
    (observeKey env p r key evidence seen add s reads).1.lastSeenMonotonic =
      s.lastSeenMonotonic := by
  unfold observeKey
  split
  · rfl
  · unfold applyRule
    dsimp only
    split
    · exact hadd _
    · rw [recalculate_lastSeen]
      exact hadd _

theorem observeWrite_lastSeen (event : Mapping F) (s : ExecutionState T F) (reads : Nat) :
    (observeWrite env p event s reads).1.lastSeenMonotonic = s.lastSeenMonotonic := by
  unfold observeWrite
  split
  · rfl
  · rfl
  · exact observeKey_lastSeen _ _ _ _ s (fun _ => rfl) reads

theorem observeRename_lastSeen (event : Mapping F) (s : ExecutionState T F) (reads : Nat) :
    (observeRename env p event s reads).1.lastSeenMonotonic = s.lastSeenMonotonic := by
  unfold observeRename
  exact observeKey_lastSeen _ _ _ _ s (fun _ => rfl) reads

theorem observeConnect_lastSeen (event : Mapping F) (s : ExecutionState T F) (reads : Nat) :
    (observeConnect env p event s reads).1.lastSeenMonotonic = s.lastSeenMonotonic := by
  unfold observeConnect
  exact observeKey_lastSeen _ _ _ _ s (fun _ => rfl) reads

/-- A later version of the state, seen at the same time. -/
def LaterVersion (p : AcceptedPolicy T) (s s' : ExecutionState T F) : Prop :=
  Advance p s s' ∧ s'.lastSeenMonotonic = s.lastSeenMonotonic

/-- Every event but an exec is answered with a later version of the state it was handed. -/
theorem ingestKind_answers (env : Env T) (p : AcceptedPolicy T) {event : Mapping F} 
    (hkind : kindOf event ≠ .processExec) (htime : ∃ n, intOr event "timestamp_ns" 0 = .ok n)
    (now : T) (s : ExecutionState T F) (e : Engine T F) :
    ∃ s', (ingestKind env p event now s e).1 = .ok (.ingested s') ∧ LaterVersion p s s' := by
  have hfinish : ∀ {s₁ : ExecutionState T F} (reads : Nat), LaterVersion p s s₁ →
      ∃ s', (finishIngest env p event s₁ reads e).1 = .ok (.ingested s') ∧ LaterVersion p s s' :=
    fun reads h => ⟨_, rfl, h.1.trans (recalculate_advance ..),
      (recalculate_lastSeen ..).trans h.2⟩
  unfold ingestKind
  split
  · next h => exact absurd h hkind
  · exact hfinish _ ⟨observeWrite_advance .., observeWrite_lastSeen ..⟩
  · exact hfinish _ ⟨observeRename_advance .., observeRename_lastSeen ..⟩
  · exact hfinish _ ⟨observeConnect_advance .., observeConnect_lastSeen ..⟩
  · obtain ⟨n, hn⟩ := htime
    have ha := observeExit_advance (p := p) event now s
    simp only [observeExit, hn] at ha ⊢
    exact hfinish _ ⟨ha, rfl⟩
  · exact hfinish _ ⟨Advance.refl s, rfl⟩

/-- The clock reading lies within the step. -/
def ReadIn (env : Env T) (e e' : Engine T F) (x : T) : Prop :=
  ∃ i, e.clockReads ≤ i ∧ i < e'.clockReads ∧ x = env.clock i

/-- An event of process `t` that is no exec and whose numeric fields convert. -/
structure PlainEvent (t : Int) (event : Mapping F) : Prop where
  pid_eq : pidOf event = .ok t
  positive : 0 < t
  kind : kindOf event ≠ .processExec
  ppid : ∀ d, ∃ n, intOr event "ppid" d = .ok n
  uid : ∀ d, ∃ n, intOr event "uid" d = .ok n
  timestamp : ∃ n, intOr event "timestamp_ns" 0 = .ok n

/-- The state such an event is handed: the one that is there, or a new one. -/
theorem PlainEvent.state (hid : Function.Injective env.idFactory) {t : Int} {event : Mapping F}
    (hev : PlainEvent t event) {e : Engine T F} (hinv : EngineInv env p e) :
    ∃ s e', runtimeState env p event e = (.ok (some s), e') ∧
      (∀ s₀, e.states.get? t = some s₀ → s = s₀) ∧ (e.states.get? t = none → NewTo e t s) := by
  have hpos : ¬ t ≤ 0 := not_le.2 hev.positive
  cases hlive : e.states.get? t with
  | some s =>
      have hrun : runtimeState env p event e = (.ok (some s), e) := by
        simp only [runtimeState, hev.pid_eq, if_neg hpos, hlive]
      exact ⟨s, e, hrun, fun s₀ h => Option.some.inj h, fun h => absurd h (by simp)⟩
  | none =>
      obtain ⟨ppid, hppid⟩ := hev.ppid 0
      obtain ⟨uid, huid⟩ := hev.uid 0
      have hrun : ∃ s e', runtimeState env p event e = (.ok (some s), e') := by
        simp only [runtimeState, hev.pid_eq, if_neg hpos, hlive, hppid, huid]
        exact ⟨_, _, rfl⟩
      obtain ⟨s, e', hrun⟩ := hrun
      exact ⟨s, e', hrun, fun s₀ h => absurd h (by simp),
        fun _ => (runtimeState_creates hid hev.pid_eq hinv hlive hrun).2.2⟩

theorem ingestKind_reads (env : Env T) (p : AcceptedPolicy T) {t : Int} {event : Mapping F}
    (hpid : pidOf event = .ok t) (now : T) {s : ExecutionState T F} (hs : s.pid = t)
    {e : Engine T F} (hk : Keyed e) :
    e.clockReads ≤ (ingestKind env p event now s e).2.clockReads := by
  have hne : pidOf event ≠ .ok (t + 1) := by rw [hpid]; simp
  exact (ingestKind_frame hne now (by omega) hk).reads

/-- Such an event is answered. A state that is live and does not expire keeps its id; otherwise the
    answer is a new generation. -/
theorem PlainEvent.answer (hid : Function.Injective env.idFactory) {t : Int} {event : Mapping F}
    (hev : PlainEvent t event) {e : Engine T F} (hinv : EngineInv env p e) :
    ∃ s', (ingestRuntimeEvent env p event e).1 = .ok (.ingested s') ∧
      (ingestRuntimeEvent env p event e).2.states.get? t = some s' ∧
      ReadIn env e (ingestRuntimeEvent env p event e).2 s'.lastSeenMonotonic ∧
      (∀ s, (expire env p none e).2.states.get? t = some s →
        s'.correlationId = s.correlationId) ∧
      ((expire env p none e).2.states.get? t = none → NewTo e t s') := by
  obtain ⟨hinv₁, hgrows₁⟩ := expire_keeps none e hinv
  have hreads₁ := (expire_frame env p 0 none hinv.live).reads
  obtain ⟨s, e₂, hrun, hsame, hnew⟩ := hev.state hid hinv₁
  have hpid := runtimeState_pid env p event hinv₁.live s (by rw [hrun])
  rw [hev.pid_eq, Except.ok.injEq] at hpid
  have hk₂ := runtimeState_keyed env p event hinv₁.live
  have hreads₂ := runtimeState_reads env p event hinv₁.live
  rw [hrun] at hk₂ hreads₂
  obtain ⟨s₁, htouch⟩ : ∃ s₁, touch event (env.clock e₂.clockReads) s = (.ok (), s₁) :=
    ⟨_, Prod.ext ((touch_fields ..).2.2.2.2 ⟨hev.ppid _, hev.uid _⟩) rfl⟩
  have hgrow := (touch_advance (p := p) event (env.clock e₂.clockReads) s).grows
  have hseen := touch_lastSeen event (env.clock e₂.clockReads) s
  rw [htouch] at hgrow hseen
  have hk₃ : Keyed (e₂.readClock.put s₁) := set_keyed (e := e₂) hk₂ s₁
  have hreads₃ := ingestKind_reads env p hev.pid_eq (env.clock e₂.clockReads)
    (hgrow.pid.trans hpid.symm) hk₃
  obtain ⟨s', hs', hlater⟩ := ingestKind_answers env p hev.kind hev.timestamp
    (env.clock e₂.clockReads) s₁ (e₂.readClock.put s₁)
  have heq : ingestRuntimeEvent env p event e =
      ingestKind env p event (env.clock e₂.clockReads) s₁ (e₂.readClock.put s₁) := by
    simp only [ingestRuntimeEvent, hrun, htouch]
  have hans : ingestRuntimeEvent env p event e =
      (.ok (.ingested s'), (ingestRuntimeEvent env p event e).2) := Prod.ext (heq ▸ hs') rfl
  obtain ⟨hlive, hpid'⟩ := ingested_live hinv.live hans
  rw [hev.pid_eq, Except.ok.injEq] at hpid'
  refine ⟨s', heq ▸ hs', hpid' ▸ hlive, ⟨e₂.clockReads, hreads₁.trans hreads₂, ?_, ?_⟩,
    fun s₀ hs₀ => ?_, fun hnone => (hnew hnone).of_grows hgrows₁ (hgrow.trans hlater.1.grows)⟩
  · rw [heq]
    exact hreads₃
  · exact hlater.2.trans hseen
  · rw [← hsame s₀ hs₀]
    exact hlater.1.grows.correlationId.trans hgrow.correlationId

/-! ## Calls of other processes -/

/-- The calls that expire states first. -/
def Expires : Call T F → Prop
  | .recordActionResult _ _ _ => False
  | _ => True

/-- Calls without an event of `t`, and without an expiry time of their own. -/
def QuietFor (t : Int) (c : Call T F) : Prop := NoEvent t c ∧ ∀ now, c ≠ .expire (some now)

/-- Once the expired states are gone, a quiet call leaves the state of `t` alone. -/
theorem quiet_undisturbed (hid : Function.Injective env.idFactory) {t : Int} {c : Call T F}
    (hc : QuietFor t c) (hexpires : Expires c) {e : Engine T F} (hinv : EngineInv env p e) :
    Undisturbed p t (expire env p none e).2 (perform env p c e).2 := by
  cases c with
  | registerPreExecution record => exact registerPreExecution_undisturbed hc.1 hinv
  | ingestRuntimeEvent event => exact ingestRuntimeEvent_undisturbed hid hc.1 hinv
  | expire now =>
      cases now with
      | none => exact Undisturbed.refl _
      | some now => exact absurd rfl (hc.2 now)
  | recordActionResult pid id result => exact hexpires.elim

theorem perform_reads (env : Env T) (p : AcceptedPolicy T) (c : Call T F) {e : Engine T F}
    (hk : Keyed e) : e.clockReads ≤ (perform env p c e).2.clockReads := by
  obtain ⟨pid, hother⟩ := exists_otherProcess c
  exact (perform_frame env p hother hk).reads

/-- `record_action_result` keeps the generation and may see the state again. -/
theorem recordActionResult_entry (env : Env T) {t : Int} {e : Engine T F} (hk : Keyed e)
    {s : ExecutionState T F} (hs : e.states.get? t = some s) (pid : Int) (id : PyStr)
    (result : Mapping F) :
    ∃ s', (recordActionResult env pid id result e).2.states.get? t = some s' ∧
      s'.correlationId = s.correlationId ∧
      (s'.lastSeenMonotonic = s.lastSeenMonotonic ∨
        ReadIn env e (recordActionResult env pid id result e).2 s'.lastSeenMonotonic) := by
  unfold recordActionResult
  split
  · exact ⟨s, hs, rfl, .inl rfl⟩
  · next s₀ hs₀ =>
    split
    · exact ⟨s, hs, rfl, .inl rfl⟩
    · have hpid := hk pid s₀ hs₀
      by_cases heq : t = pid
      · subst heq
        rw [hs, Option.some.injEq] at hs₀
        subst hs₀
        refine ⟨{ s with
          lastActionResult := some result
          actionExecutionStatus := truthyText result "status" (py "UNKNOWN")
          lastSeenMonotonic := env.clock e.clockReads }, ?_, rfl,
          .inr ⟨e.clockReads, le_rfl, Nat.lt_succ_self _, rfl⟩⟩
        rw [← hpid]
        exact get?_put_self ..
      · refine ⟨s, ?_, rfl, .inl rfl⟩
        simp only [Engine.put, hpid]
        rw [Dict.get?_set_ne _ heq]
        exact hs

/-- A quiet call at which the state of `t` does not expire keeps its generation. -/
theorem quiet_keeps (hid : Function.Injective env.idFactory) {t : Int} {c : Call T F}
    (hc : QuietFor t c) {e : Engine T F} (hinv : EngineInv env p e) {s : ExecutionState T F}
    (hs : e.states.get? t = some s)
    (hexp : Expires c → expiry p (env.clock e.clockReads) s = none)
    (hroom : ¬ Crowded p t (perform env p c e).2) :
    ∃ s', (perform env p c e).2.states.get? t = some s' ∧ s'.correlationId = s.correlationId ∧
      (s'.lastSeenMonotonic = s.lastSeenMonotonic ∨
        ReadIn env e (perform env p c e).2 s'.lastSeenMonotonic) := by
  by_cases hexpires : Expires c
  · have hkept : (expire env p none e).2.states.get? t = some s := by
      rw [get?_expire, hs]
      simp [Option.filter, hexp hexpires]
    rcases (quiet_undisturbed hid hc hexpires hinv).entry with h | h
    · exact ⟨s, h.trans hkept, rfl, .inl rfl⟩
    · exact absurd h hroom
  · cases c with
    | recordActionResult pid id result => exact recordActionResult_entry env hinv.live hs _ _ _
    | registerPreExecution record => exact absurd trivial hexpires
    | ingestRuntimeEvent event => exact absurd trivial hexpires
    | expire now => exact absurd trivial hexpires

/-- A quiet call at which the state of `t` expires loses it. -/
theorem quiet_loses (hid : Function.Injective env.idFactory) {t : Int} {c : Call T F}
    (hc : QuietFor t c) (hexpires : Expires c) {e : Engine T F} (hinv : EngineInv env p e)
    {s : ExecutionState T F} (hs : e.states.get? t = some s)
    (hexp : expiry p (env.clock e.clockReads) s ≠ none)
    (hroom : ¬ Crowded p t (perform env p c e).2) :
    (perform env p c e).2.states.get? t = none := by
  have hlost : (expire env p none e).2.states.get? t = none := by
    rw [get?_expire, hs]
    simp [Option.filter, hexp]
  rcases (quiet_undisturbed hid hc hexpires hinv).entry with h | h
  · exact h.trans hlost
  · exact absurd h hroom

/-! ## Runs of a thread group -/

section Runs

variable (env : Env T) (p : AcceptedPolicy T) (t : Int) (e : Engine T F) (calls : List (Call T F))

/-- The engine after the first `n` calls. -/
def reached (n : Nat) : Engine T F := runCalls env p (calls.take n) e

/-- The `n`-th call is an event of `t`. -/
def EventAt (n : Nat) : Prop :=
  ∃ event, calls[n]? = some (.ingestRuntimeEvent event) ∧ pidOf event = .ok t

/-- The state the `n`-th call was answered with. -/
def answerAt (n : Nat) : Option (ExecutionState T F) :=
  match calls[n]? with
  | some c => answeredState (perform env p c (reached env p e calls n))
  | none => none

/-- The scores answered for `t` never decrease, and all answers are of one generation. -/
def KeepsScore : Prop :=
  ∀ m n, m < n → EventAt t calls m → EventAt t calls n →
    ∃ s s', answerAt env p e calls m = some s ∧ answerAt env p e calls n = some s' ∧
      s'.correlationId = s.correlationId ∧ s.combinedScore ≤ s'.combinedScore

/-- Up to the last event of `t`, no call finds its state `EXITED` for longer than
    `exited_state_ttl_seconds`. -/
def ExitedBriefly : Prop :=
  ∀ n c, calls[n]? = some c → Expires c → (∃ n', n ≤ n' ∧ EventAt t calls n') →
    ∀ s x, (reached env p e calls n).states.get? t = some s → s.status = .exited →
      s.exitedMonotonic = some x →
      ¬ p.toPolicy.exitedStateTtlSeconds <
        env.clock (reached env p e calls n).clockReads - x

/-- Consecutive events of `t` arrive no more than `state_ttl_seconds` apart. -/
def Spaced : Prop :=
  ∀ m n, m < n → EventAt t calls m → EventAt t calls n →
    (∀ k, m < k → k < n → ¬ EventAt t calls k) →
    ¬ p.toPolicy.stateTtlSeconds <
      env.clock (reached env p e calls n).clockReads -
        env.clock (reached env p e calls m).clockReads

end Runs

/-- The time between two readings does not shrink when the interval grows. -/
def ElapsedMono (env : Env T) : Prop :=
  ∀ ⦃m m' n n' : Nat⦄ ⦃b : T⦄, m ≤ m' → n' ≤ n → b < env.clock m - env.clock n →
    b < env.clock m' - env.clock n'

section Follow

variable {t : Int} {e : Engine T F} {calls : List (Call T F)}

theorem reached_succ {n : Nat} {c : Call T F} (h : calls[n]? = some c) :
    reached env p e calls (n + 1) = (perform env p c (reached env p e calls n)).2 := by
  simp only [reached, runCalls, List.take_add_one, h, Option.toList_some, List.foldl_append,
    List.foldl_cons, List.foldl_nil]

theorem reached_split (env : Env T) (p : AcceptedPolicy T) (e : Engine T F)
    (calls : List (Call T F)) {m n : Nat} (h : m ≤ n) :
    ∃ rest, reached env p e calls n = runCalls env p rest (reached env p e calls m) := by
  refine ⟨(calls.take n).drop m, ?_⟩
  have htake : calls.take m = (calls.take n).take m := by rw [List.take_take, min_eq_left h]
  rw [reached, reached, htake, runCalls, runCalls, runCalls, ← List.foldl_append,
    List.take_append_drop]

theorem reached_grows (hid : Function.Injective env.idFactory) (hinv : EngineInv env p e)
    (calls : List (Call T F)) {m n : Nat} (h : m ≤ n) :
    EngineInv env p (reached env p e calls n) ∧
      EngineGrows (reached env p e calls m) (reached env p e calls n) := by
  obtain ⟨rest, hrest⟩ := reached_split env p e calls h
  rw [hrest]
  exact runCalls_keeps hid rest _ (runCalls_keeps hid _ e hinv).1

theorem reached_reads (env : Env T) (p : AcceptedPolicy T) (hk : Keyed e)
    (calls : List (Call T F)) {m n : Nat} (h : m ≤ n) :
    (reached env p e calls m).clockReads ≤ (reached env p e calls n).clockReads := by
  have hrun : ∀ (rest : List (Call T F)) {e' : Engine T F}, Keyed e' →
      e'.clockReads ≤ (runCalls env p rest e').clockReads := by
    intro rest
    induction rest with
    | nil => exact fun _ => le_rfl
    | cons c rest ih =>
        intro e' hk'
        exact (perform_reads env p c hk').trans (ih (runCalls_keyed env p [c] hk'))
  obtain ⟨rest, hrest⟩ := reached_split env p e calls h
  rw [hrest]
  exact hrun rest (runCalls_keyed env p _ hk)

/-- The run of a thread group: its events are plain, and the other calls are quiet. -/
def GroupCalls (t : Int) (calls : List (Call T F)) : Prop :=
  ∀ c ∈ calls, (∃ event, PlainEvent t event ∧ c = .ingestRuntimeEvent event) ∨ QuietFor t c

theorem GroupCalls.event (h : GroupCalls t calls) {n : Nat} (hn : EventAt t calls n) :
    ∃ event, calls[n]? = some (.ingestRuntimeEvent event) ∧ PlainEvent t event := by
  obtain ⟨event, hc, hpid⟩ := hn
  rcases h _ (List.mem_of_getElem? hc) with ⟨event', hev, heq⟩ | hquiet
  · rw [Call.ingestRuntimeEvent.injEq] at heq
    exact ⟨event, hc, heq ▸ hev⟩
  · exact absurd hpid hquiet.1

theorem GroupCalls.quiet (h : GroupCalls t calls) {n : Nat} {c : Call T F}
    (hc : calls[n]? = some c) (hn : ¬ EventAt t calls n) : QuietFor t c := by
  rcases h _ (List.mem_of_getElem? hc) with ⟨event, hev, rfl⟩ | hquiet
  · exact absurd ⟨event, hc, hev.pid_eq⟩ hn
  · exact hquiet

/-- The answer of the event at `n`, and whether the state it answers for was kept. -/
theorem GroupCalls.answer (h : GroupCalls t calls) (hid : Function.Injective env.idFactory)
    (hinv : EngineInv env p e) {n : Nat} (hn : EventAt t calls n) :
    ∃ s', answerAt env p e calls n = some s' ∧
      (reached env p e calls (n + 1)).states.get? t = some s' ∧
      ReadIn env (reached env p e calls n) (reached env p e calls (n + 1)) s'.lastSeenMonotonic ∧
      (∀ s, (reached env p e calls n).states.get? t = some s →
        expiry p (env.clock (reached env p e calls n).clockReads) s = none →
        s'.correlationId = s.correlationId) ∧
      ((∀ s, (reached env p e calls n).states.get? t = some s →
        expiry p (env.clock (reached env p e calls n).clockReads) s ≠ none) →
        NewTo (reached env p e calls n) t s') := by
  obtain ⟨event, hc, hev⟩ := h.event hn
  have hinv' := (reached_grows hid hinv calls (Nat.zero_le n)).1
  obtain ⟨s', hans, hlive, hread, hsame, hnew⟩ := hev.answer hid hinv'
  rw [reached_succ hc]
  have hget := get?_expire env p none (reached env p e calls n) t
  simp only [Option.getD_none] at hget
  refine ⟨s', ?_, hlive, hread, fun s hs hexp => hsame s ?_, fun hno => hnew ?_⟩
  · simp only [answerAt, hc, perform, answeredState, hans]
  · rw [hget, hs]
    simp [Option.filter, hexp]
  · rw [hget]
    cases hs : (reached env p e calls n).states.get? t with
    | none => rfl
    | some s => simp [Option.filter, hno s hs]

/-- What is followed along the run: the state of `t` is live, of the generation `id`, and was last
    seen at or after its last event. -/
def Followed (env : Env T) (p : AcceptedPolicy T) (t : Int) (e : Engine T F)
    (calls : List (Call T F)) (id : PyStr) (k : Nat) : Prop :=
  ∃ s j, (reached env p e calls k).states.get? t = some s ∧ s.correlationId = id ∧
    j < k ∧ EventAt t calls j ∧ (∀ i, j < i → i < k → ¬ EventAt t calls i) ∧
    ReadIn env (reached env p e calls j) (reached env p e calls k) s.lastSeenMonotonic

/-- A followed state does not expire before the next event: it was seen recently enough, and if it is
    exited, then not for long. -/
theorem Followed.not_expired (hclock : ElapsedMono env) (hk : Keyed e)
    (hspaced : Spaced env p t e calls) (hexit : ExitedBriefly env p t e calls) {id : PyStr}
    {k n : Nat} {c : Call T F} (hc : calls[k]? = some c) (hexpires : Expires c) (hkn : k ≤ n)
    (hn : EventAt t calls n) {s : ExecutionState T F}
    (hs : (reached env p e calls k).states.get? t = some s)
    (hf : Followed env p t e calls id k) :
    expiry p (env.clock (reached env p e calls k).clockReads) s = none := by
  obtain ⟨s', j, hs', -, hjk, hj, hbetween, i, hi, -, hseen⟩ := hf
  obtain rfl : s' = s := Option.some.inj (hs'.symm.trans hs)
  have hrecent : ¬ p.toPolicy.stateTtlSeconds <
      env.clock (reached env p e calls k).clockReads - s'.lastSeenMonotonic := by
    -- the first event from `k` on follows the one at `j`
    classical
    have hex : ∃ n, k ≤ n ∧ EventAt t calls n := ⟨n, hkn, hn⟩
    obtain ⟨hkn', hn'⟩ := Nat.find_spec hex
    have hfirst : ∀ i, j < i → i < Nat.find hex → ¬ EventAt t calls i := by
      intro i hji hin hi
      by_cases hik : i < k
      · exact hbetween i hji hik hi
      · exact Nat.find_min hex hin ⟨not_lt.1 hik, hi⟩
    intro hold
    rw [hseen] at hold
    exact hspaced j _ (hjk.trans_le hkn') hj hn' hfirst
      (hclock (reached_reads env p hk calls hkn') hi hold)
  unfold expiry
  split
  · next x hstatus hexited => exact if_neg (hexit k c hc hexpires ⟨n, hkn, hn⟩ s' x hs hstatus hexited)
  · exact if_neg hrecent

/-- One call on, up to the event at `n`. -/
theorem Followed.step (hid : Function.Injective env.idFactory) (hclock : ElapsedMono env)
    (hinv : EngineInv env p e) (hcalls : GroupCalls t calls) (hspaced : Spaced env p t e calls)
    (hroom : ∀ n, ¬ Crowded p t (reached env p e calls n))
    (hexit : ExitedBriefly env p t e calls) {id : PyStr} {k n : Nat} (hkn : k < n)
    (hn : EventAt t calls n) (hf : Followed env p t e calls id k) :
    Followed env p t e calls id (k + 1) := by
  have hlen : n < calls.length := by
    obtain ⟨event, hc, -⟩ := hn
    exact (List.getElem?_eq_some_iff.1 hc).1
  obtain ⟨c, hc⟩ : ∃ c, calls[k]? = some c := ⟨_, List.getElem?_eq_getElem (hkn.trans hlen)⟩
  have hinv' := (reached_grows hid hinv calls (Nat.zero_le k)).1
  have hf' := hf
  obtain ⟨s, j, hs, hsid, hjk, hj, hbetween, i, hji, hik, hseen⟩ := hf'
  have hexp : Expires c →
      expiry p (env.clock (reached env p e calls k).clockReads) s = none :=
    fun hx => Followed.not_expired hclock hinv.live hspaced hexit hc hx hkn.le hn hs hf
  by_cases hk : EventAt t calls k
  · obtain ⟨s', -, hs', hread, hsame, -⟩ := hcalls.answer hid hinv hk
    have hx : Expires c := by
      obtain ⟨event, hc', -⟩ := hk
      rw [hc, Option.some.injEq] at hc'
      exact hc' ▸ trivial
    exact ⟨s', k, hs', (hsame s hs (hexp hx)).trans hsid, Nat.lt_succ_self k, hk,
      fun i h1 h2 => absurd h1 (by omega), hread⟩
  · have hkeep := quiet_keeps hid (hcalls.quiet hc hk) hinv' hs hexp
      (by rw [← reached_succ hc]; exact hroom (k + 1))
    rw [← reached_succ hc] at hkeep
    obtain ⟨s', hs', hsid', hseen'⟩ := hkeep
    refine ⟨s', j, hs', hsid'.trans hsid, hjk.trans (Nat.lt_succ_self k), hj, ?_, ?_⟩
    · intro i h1 h2
      rcases Nat.lt_succ_iff_lt_or_eq.1 h2 with h2 | rfl
      · exact hbetween i h1 h2
      · exact hk
    · have hmono := reached_reads env p hinv.live calls (Nat.le_succ k)
      rcases hseen' with hsame | ⟨i', h1, h2, heq⟩
      · exact ⟨i, hji, hik.trans_le hmono, hsame.trans hseen⟩
      · exact ⟨i', (reached_reads env p hinv.live calls hjk.le).trans h1, h2, heq⟩

/-- From an answer to the next events of the group. -/
theorem Followed.from_answer (hid : Function.Injective env.idFactory) (hclock : ElapsedMono env)
    (hinv : EngineInv env p e) (hcalls : GroupCalls t calls) (hspaced : Spaced env p t e calls)
    (hroom : ∀ n, ¬ Crowded p t (reached env p e calls n))
    (hexit : ExitedBriefly env p t e calls) {m n : Nat} (hm : EventAt t calls m)
    (hn : EventAt t calls n) {s : ExecutionState T F}
    (hs : answerAt env p e calls m = some s) {k : Nat} (hmk : m < k) (hkn : k ≤ n) :
    Followed env p t e calls s.correlationId k := by
  induction k, hmk using Nat.le_induction with
  | base =>
      obtain ⟨s', hans, hlive, hread, -⟩ := hcalls.answer hid hinv hm
      obtain rfl : s' = s := Option.some.inj (hans.symm.trans hs)
      exact ⟨s', m, hlive, rfl, Nat.lt_succ_self m, hm, fun i h1 h2 => absurd h1 (by omega), hread⟩
  | succ k hmk ih =>
      exact (ih (by omega)).step hid hclock hinv hcalls hspaced hroom hexit hkn hn

theorem keepsScore_of_exitedBriefly (hid : Function.Injective env.idFactory)
    (hclock : ElapsedMono env) (hinv : EngineInv env p e) (hcalls : GroupCalls t calls)
    (hspaced : Spaced env p t e calls) (hroom : ∀ n, ¬ Crowded p t (reached env p e calls n))
    (hexit : ExitedBriefly env p t e calls) : KeepsScore env p t e calls := by
  intro m n hmn hm hn
  obtain ⟨s, hans, hs, -⟩ := hcalls.answer hid hinv hm
  obtain ⟨s', hans', hs', -, hsame, -⟩ := hcalls.answer hid hinv hn
  have hfollowed := Followed.from_answer hid hclock hinv hcalls hspaced hroom hexit hm hn hans hmn
    le_rfl
  have hf := hfollowed
  obtain ⟨s₀, j, hs₀, hid₀, -⟩ := hf
  obtain ⟨event, hc, hpid⟩ := hn
  have hexp := Followed.not_expired hclock hinv.live hspaced hexit hc trivial le_rfl
    ⟨event, hc, hpid⟩ hs₀ hfollowed
  have hsameId : s'.correlationId = s.correlationId := (hsame s₀ hs₀ hexp).trans hid₀
  -- scores of one generation only grow
  have hinv₁ := (reached_grows hid hinv calls (Nat.zero_le (m + 1))).1
  obtain ⟨hinv₂, hgrows⟩ := reached_grows hid hinv calls (show m + 1 ≤ n + 1 by omega)
  have hmem : ∀ {k : Nat} {x : ExecutionState T F},
      (reached env p e calls k).states.get? t = some x → x ∈ (reached env p e calls k).known :=
    fun h => (known_perm_pop h).mem_iff.2 (List.mem_cons_self ..)
  exact ⟨s, s', hans, hans', hsameId,
    combined_le_of_sameId hinv₁ hinv₂ hgrows (hmem hs) (hmem hs') hsameId⟩

/-- Without an event the process has no state. -/
theorem no_state_without_event (env : Env T) (p : AcceptedPolicy T) (hinv : EngineInv env p e)
    (hcalls : GroupCalls t calls) {m n : Nat} (hmn : m ≤ n) (hnone : (reached env p e calls m).states.get? t = none)
    (hno : ∀ k, m ≤ k → k < n → ¬ EventAt t calls k) :
    (reached env p e calls n).states.get? t = none := by
  induction n, hmn using Nat.le_induction with
  | base => exact hnone
  | succ n hmn ih =>
      have hprev := ih fun k h1 h2 => hno k h1 (by omega)
      by_contra hsome
      obtain ⟨s', hs'⟩ := Option.ne_none_iff_exists'.1 hsome
      cases hc : calls[n]? with
      | none =>
          have hlen := List.getElem?_eq_none_iff.1 hc
          rw [reached, List.take_of_length_le (by omega), ← List.take_of_length_le hlen] at hs'
          exact absurd (hprev.symm.trans hs') (by simp)
      | some c =>
          rw [reached_succ hc] at hs'
          obtain ⟨s, hs, -⟩ := perform_sameId (hcalls.quiet hc (hno n hmn (by omega))).1
            (runCalls_keyed env p _ hinv.live) hs'
          exact absurd (hprev.symm.trans hs) (by simp)

theorem exitedBriefly_of_keepsScore (hid : Function.Injective env.idFactory)
    (hinv : EngineInv env p e) (hnone : e.states.get? t = none) (hcalls : GroupCalls t calls)
    (hroom : ∀ n, ¬ Crowded p t (reached env p e calls n))
    (hkeep : KeepsScore env p t e calls) : ExitedBriefly env p t e calls := by
  intro n c hc hexpires hex s x hs hstatus hexited hover
  have hexp : expiry p (env.clock (reached env p e calls n).clockReads) s ≠ none := by
    simp [expiry, hstatus, hexited, hover]
  -- the state was created by an event before `n`
  obtain ⟨m, hmn, hm⟩ : ∃ m < n, EventAt t calls m := by
    by_contra hno
    push Not at hno
    have hgone := no_state_without_event env p hinv hcalls (Nat.zero_le n) hnone
      (fun k _ hk => hno k hk)
    exact absurd (hgone.symm.trans hs) (by simp)
  -- and the first event from `n` on finds it gone
  classical
  obtain ⟨hnn', hn'⟩ := Nat.find_spec hex
  have hfirst : ∀ k, n ≤ k → k < Nat.find hex → ¬ EventAt t calls k :=
    fun k h1 h2 h3 => Nat.find_min hex h2 ⟨h1, h3⟩
  generalize Nat.find hex = n' at *
  have hgone : ∀ s', (reached env p e calls n').states.get? t = some s' →
      expiry p (env.clock (reached env p e calls n').clockReads) s' ≠ none := by
    rcases Nat.eq_or_lt_of_le hnn' with rfl | hlt
    · intro s' hs'
      rw [hs, Option.some.injEq] at hs'
      exact hs' ▸ hexp
    · have hquiet := hcalls.quiet hc (hfirst n le_rfl hlt)
      have hlost := quiet_loses hid hquiet hexpires (reached_grows hid hinv calls (Nat.zero_le n)).1
        hs hexp (by rw [← reached_succ hc]; exact hroom (n + 1))
      rw [← reached_succ hc] at hlost
      have hstill := no_state_without_event env p hinv hcalls hlt hlost
        (fun k h1 h2 => hfirst k (by omega) h2)
      intro s' hs'
      exact absurd (hstill.symm.trans hs') (by simp)
  obtain ⟨s₁, hans₁, hs₁, -⟩ := hcalls.answer hid hinv hm
  obtain ⟨s₂, hans₂, -, -, -, hnew⟩ := hcalls.answer hid hinv hn'
  obtain ⟨s₁', s₂', hans₁', hans₂', hsame, -⟩ := hkeep m n' (by omega) hm hn'
  obtain rfl : s₁' = s₁ := Option.some.inj (hans₁'.symm.trans hans₁)
  obtain rfl : s₂' = s₂ := Option.some.inj (hans₂'.symm.trans hans₂)
  obtain ⟨-, hgrows⟩ := reached_grows hid hinv calls (show m + 1 ≤ n' by omega)
  obtain ⟨y, hy, hgrow⟩ := hgrows s₁' ((known_perm_pop hs₁).mem_iff.2 (List.mem_cons_self ..))
  exact (hnew hgone y hy).1 (hsame.trans hgrow.correlationId.symm)

end Follow

/-! ## The probes -/

/-- An event of the thread group `t` as the probes emit it, in a run without an exec or an exit of
    the group leader. -/
structure ThreadEvent (t : Nat) (event : EbpfEvent) : Prop where
  tgid : event.tgid = t
  notExec : event.eventType ≠ .processExec
  notLeader : ¬ (event.eventType = .processExit ∧ event.pid = t)

theorem ThreadEvent.plain {t : Nat} (ht : 0 < t) {event : EbpfEvent} (h : ThreadEvent t event) :
    PlainEvent t (event.record : Mapping F) := by
  refine ⟨?_, by omega, ?_, fun d => (intOr_record event d).1, fun d => (intOr_record event d).2.1,
    (intOr_record event 0).2.2⟩
  · rw [pidOf_record event (h.tgid.symm ▸ ht), h.tgid]
  · have hne := h.notExec
    rw [kindOf_record]
    cases hkind : event.eventType <;> simp_all [EventType.kind]

/-- **When a running process keeps its score.** Take any reachable engine without a state of the
    thread group `t`, and any run of events the probes emit for `t` (no exec, and exits of worker
    threads only) and of calls for other processes, with consecutive events of `t` no more than
    `state_ttl_seconds` apart and fewer than `max_states` other processes. The scores answered for
    `t` never decrease under one correlation id exactly when, up to the last event of `t`, its state
    is never found `EXITED` for longer than `exited_state_ttl_seconds`. -/
theorem thread_group_keeps_score_iff (hid : Function.Injective env.idFactory)
    (hclock : ElapsedMono env) (before calls : List (Call T F)) {t : Nat} (ht : 0 < t)
    {e : Engine T F} (he : e = runCalls env p before {}) (hnone : e.states.get? t = none)
    (hcalls : ∀ c ∈ calls, (∃ event, ThreadEvent t event ∧ c = .ingestRuntimeEvent event.record) ∨
      QuietFor t c)
    (hspaced : Spaced env p t e calls)
    (hroom : ∀ n, ((othersSeen t (reached env p e calls n)).card : Int) < p.toPolicy.maxStates) :
    KeepsScore env p t e calls ↔ ExitedBriefly env p t e calls := by
  have hinv : EngineInv env p e := he ▸ (runCalls_keeps hid before {} initial_inv).1
  have hgroup : GroupCalls (t : Int) calls := by
    intro c hc
    rcases hcalls c hc with ⟨event, hev, heq⟩ | hquiet
    · exact .inl ⟨_, hev.plain ht, heq⟩
    · exact .inr hquiet
  have hroom' : ∀ n, ¬ Crowded p t (reached env p e calls n) := fun n => not_le.2 (hroom n)
  exact ⟨exitedBriefly_of_keepsScore hid hinv hnone hgroup hroom',
    keepsScore_of_exitedBriefly hid hclock hinv hgroup hspaced hroom'⟩

/-! ### A worker thread exits -/

/-- The main thread of process 7 writes a file. -/
def threadWrite : EbpfEvent :=
  { eventType := .fileWrite, timestampNs := 1, pid := 7, tgid := 7, ppid := 1, uid := 0
    comm := py "a", device := some 1, inode := some 2 }

/-- A worker thread of process 7 connects to a server. -/
def threadConnect : EbpfEvent :=
  { eventType := .networkConnect, timestampNs := 2, pid := 8, tgid := 7, ppid := 1, uid := 0
    comm := py "a", destinationAddress := some (py "10.0.0.1"), destinationPort := some 443 }

/-- The worker thread exits. -/
def workerExit : EbpfEvent :=
  { eventType := .processExit, timestampNs := 3, pid := 8, tgid := 7, ppid := 1, uid := 0
    comm := py "a", exitCode := some 0 }

/-- A write, a connection, the exit of the worker, and another write. -/
def threadCalls : List (Call ℤ SampleFloat) :=
  [threadWrite, threadConnect, workerExit, threadWrite].map
    (fun event => .ingestRuntimeEvent event.record)

theorem threadCalls_events : ∀ c ∈ threadCalls,
    (∃ event, ThreadEvent 7 event ∧ c = .ingestRuntimeEvent event.record) ∨ QuietFor 7 c := by
  intro c hc
  obtain ⟨event, hmem, rfl⟩ := List.mem_map.1 hc
  refine .inl ⟨event, ?_, rfl⟩
  simp only [List.mem_cons, List.not_mem_nil, or_false] at hmem
  rcases hmem with rfl | rfl | rfl | rfl <;> exact ⟨rfl, by decide, by decide⟩

theorem threadCalls_eventAt {n : Nat} : EventAt 7 threadCalls n ↔ n < 4 := by
  constructor
  · rintro ⟨event, hc, -⟩
    exact (List.getElem?_eq_some_iff.1 hc).1
  · intro hn
    interval_cases n <;> exact ⟨_, rfl, rfl⟩

/-- The last event comes within the time to live of exited states, and the score is kept. -/
theorem score_kept_after_worker_exit :
    (answerAt sampleEnv acceptedDefaultPolicy {} threadCalls 2).map (·.status) = some .exited ∧
    KeepsScore sampleEnv acceptedDefaultPolicy 7 {} threadCalls := by
  refine ⟨by decide, ?_⟩
  have hreads : ∀ n ≤ 4,
      (reached sampleEnv acceptedDefaultPolicy {} threadCalls n).clockReads ≤ 10 := by
    intro n hn
    interval_cases n <;> decide
  have hseen : ∀ n, (othersSeen 7 (reached sampleEnv acceptedDefaultPolicy {} threadCalls n)).card
      = 0 := by
    intro n
    by_cases hn : n < 4
    · interval_cases n <;> decide
    · rw [reached, List.take_of_length_le (not_lt.1 hn)]
      decide
  have hclock : ∀ n, sampleEnv.clock n = n := fun _ => rfl
  have httl : acceptedDefaultPolicy.toPolicy.stateTtlSeconds = 300 := rfl
  have hexitedTtl : acceptedDefaultPolicy.toPolicy.exitedStateTtlSeconds = 60 := rfl
  have hmax : acceptedDefaultPolicy.toPolicy.maxStates = 4096 := rfl
  refine (thread_group_keeps_score_iff sampleEnv_idFactory_injective ?_ [] threadCalls
    (show 0 < 7 by decide) (e := {}) rfl rfl threadCalls_events ?_ ?_).2 ?_
  · intro m m' n n' b hm hn h
    rw [hclock, hclock] at h ⊢
    omega
  · intro m n _ _ hn _
    have hle := hreads n (threadCalls_eventAt.1 hn).le
    rw [hclock, hclock, httl]
    omega
  · intro n
    rw [hmax]
    exact_mod_cast (hseen n).trans_lt (by decide)
  · intro n c hc _ _ s x hs _ hx
    have hn : n < 4 := (List.getElem?_eq_some_iff.1 hc).1
    have hle := hreads n hn.le
    have hexit : ((reached sampleEnv acceptedDefaultPolicy {} threadCalls n).states.get? 7).map
        (·.exitedMonotonic) ∈ [none, some none, some (some 7)] := by
      interval_cases n <;> decide
    have hs' : (reached sampleEnv acceptedDefaultPolicy {} threadCalls n).states.get? 7 = some s := hs
    have hx7 : x = 7 := by simpa [hs', hx] using hexit
    rw [hclock, hexitedTtl, hx7]
    omega

/-- A clock that advances seventy seconds a reading. -/
def slowEnv : Env ℤ := { sampleEnv with clock := fun n => 70 * n }

/-- The events of process 7 are at most 280 seconds apart, but the last one comes 70 seconds after
    the worker's exit was seen: its answer is a new generation, and the score drops from 28 to 8. -/
theorem worker_exit_sheds_score :
    (∀ c ∈ threadCalls, (∃ event, ThreadEvent 7 event ∧ c = .ingestRuntimeEvent event.record) ∨
      QuietFor 7 c) ∧
    ElapsedMono slowEnv ∧ Spaced slowEnv acceptedDefaultPolicy 7 {} threadCalls ∧
    (answerAt slowEnv acceptedDefaultPolicy {} threadCalls 2).map
      (fun s => (s.correlationId, s.combinedScore)) = some ([], 28) ∧
    (answerAt slowEnv acceptedDefaultPolicy {} threadCalls 3).map
      (fun s => (s.correlationId, s.combinedScore)) = some ([97], 8) ∧
    ¬ KeepsScore slowEnv acceptedDefaultPolicy 7 {} threadCalls := by
  have hbefore : (answerAt slowEnv acceptedDefaultPolicy {} threadCalls 2).map
      (fun s => (s.correlationId, s.combinedScore)) = some ([], 28) := by decide
  have hafter : (answerAt slowEnv acceptedDefaultPolicy {} threadCalls 3).map
      (fun s => (s.correlationId, s.combinedScore)) = some ([97], 8) := by decide
  refine ⟨threadCalls_events, ?_, ?_, hbefore, hafter, fun hkeep => ?_⟩
  · intro m m' n n' b hm hn h
    simp only [slowEnv] at h ⊢
    omega
  · intro m n hmn _ hn hno
    have hlt := threadCalls_eventAt.1 hn
    -- every call is an event, so consecutive events are neighbours
    obtain rfl : n = m + 1 := by
      by_contra hne
      exact hno (m + 1) (by omega) (by omega) (threadCalls_eventAt.2 (by omega))
    have hm : m < 3 := by omega
    interval_cases m <;> decide
  · obtain ⟨s, s', hs, hs', hsame, -⟩ := hkeep 2 3 (by omega) (threadCalls_eventAt.2 (by omega))
      (threadCalls_eventAt.2 (by omega))
    simp only [hs, hs', Option.map_some, Option.some.injEq, Prod.mk.injEq] at hbefore hafter
    rw [hbefore.1, hafter.1] at hsame
    exact absurd hsame (by decide)

end Elyra.Correlation
