import Elyra.Service.Daemon

set_option autoImplicit false
set_option linter.unusedSectionVars false

/-! # Audit failures and the daemon's threads

`Moved` says once what a step can do to the threads, by whether the step absorbs its audit failure:
it finishes a fanotify event, it moves one consumer, or it leaves all of that alone. A step that does
not absorb its failure ends a thread or loses a record, and no later step repairs that (`Lost`). So a
run keeps the threads alive exactly when each of its steps absorbs. -/

namespace Elyra.Service

open Elyra.Python Elyra.Ebpf Elyra.Fanotify Elyra.Analyzer Elyra.Correlation

variable {T F : Type}
variable [Zero T] [Add T] [Sub T] [Min T] [LE T] [DecidableLE T] [LT T] [DecidableLT T]
variable [FloatNum F]

/-! ## States the response engine can report on -/

/-- `_result` and the call of `record_action_result` convert what they read from the state. -/
structure Reportable (state : Mapping F) : Prop where
  score : ∃ n, Response.score state = .ok n
  pid : ∃ o, Response.pid state = .ok o
  stored : ∀ v, getTruthy state "pid" = some v → ∃ n, pyInt v = .ok n

theorem toDict_reportable (seconds : T → Json F) {s : ExecutionState T F} (h : InRange s) :
    Reportable (s.toDict seconds) := by
  have hscore : lookup (py "combined_score") (s.toDict seconds) = some (.int s.combinedScore) := rfl
  have htgid : lookup (py "tgid") (s.toDict seconds) = some (.int s.tgid) := rfl
  have hpid : lookup (py "pid") (s.toDict seconds) = some (.int s.pid) := rfl
  refine ⟨?_, ?_, ?_⟩
  · have hsmall : s.combinedScore.natAbs >>> 970 < 2 ^ 54 - 1 := by
      have hnonneg := h.nonneg
      have hcapped := h.capped
      have hle : s.combinedScore.natAbs ≤ 100 := by omega
      calc s.combinedScore.natAbs >>> 970 ≤ s.combinedScore.natAbs := Nat.shiftRight_le _ _
        _ ≤ 100 := hle
        _ < 2 ^ 54 - 1 := by norm_num
    refine ⟨clampScore s.combinedScore, ?_⟩
    unfold Response.score
    rw [hscore]
    simp only [Option.getD_some, Response.intOfFloat, if_pos hsmall]
  · unfold Response.pid
    rw [htgid]
    simp only [Option.some_or, pyInt]
    exact ⟨_, rfl⟩
  · intro v hv
    unfold getTruthy at hv
    rw [hpid, Option.filter] at hv
    split at hv
    · cases hv
      exact ⟨s.pid, rfl⟩
    · cases hv

theorem result_ok {state : Mapping F} (h : Reportable state) (stamp : Response.Stamp F)
    (report : Response.Report F) : ∃ r, Response.result stamp state report = .ok r := by
  obtain ⟨n, hn⟩ := h.score
  obtain ⟨o, ho⟩ := h.pid
  unfold Response.result
  simp only [hn, ho, bind, Except.bind]
  exact ⟨_, rfl⟩

/-- With an outcome that did not raise, every branch of the action has a report. -/
theorem act_ok (automatic : Bool) (state : Mapping F) (a : Response.Action)
    {o : Response.Outcome F} (h : ∀ exc, o ≠ .raised exc) :
    ∃ report, Response.act automatic state a o = .ok report := by
  have hsettled : ∀ recommendation a done refusal,
      ∃ report, Response.settled recommendation a done refusal o = .ok report := by
    intro recommendation a done refusal
    cases o with
    | completed details => exact ⟨_, rfl⟩
    | declined message => exact ⟨_, rfl⟩
    | raised exc => exact absurd rfl (h exc)
  unfold Response.act
  cases a with
  | allow => exact ⟨_, rfl⟩
  | allowMonitor => exact ⟨_, rfl⟩
  | warn => exact ⟨_, rfl⟩
  | deny =>
      dsimp only
      split
      · exact ⟨_, rfl⟩
      · exact ⟨_, rfl⟩
  | terminate =>
      dsimp only
      split
      · exact hsettled ..
      · exact ⟨_, rfl⟩
  | quarantine =>
      dsimp only
      split
      · exact hsettled ..
      · exact ⟨_, rfl⟩

/-! ## The invariant -/

/-- The state a consumer is working on. -/
def Phase.state? : Phase F → Option (Mapping F)
  | .waiting => none
  | .correlated state => some state
  | .audited state => some state
  | .acting state _ _ => some state
  | .reporting state _ _ => some state
  | .reported state _ => some state
  | .dead _ => none

structure Inv (d : Daemon T F) : Prop where
  engine : d.engine.InRange
  queue : ∀ record ∈ d.queue, Legible record
  states : ∀ m state, (d.consumer m).phase.state? = some state → Reportable state
  count : d.queued.length ≤ d.handled.length

theorem inv_start : Inv ({} : Daemon T F) := by
  refine ⟨?_, ?_, ?_, ?_⟩
  · intro pid s h
    exact absurd h (by simp)
  · intro record h
    cases h
  · intro m state h
    cases h
  · exact le_rfl

/-! ## What a step does -/

/-- One consumer's step: it was alive, and it stays alive and loses nothing exactly when it absorbs
    its audit failure. -/
structure Turn (ok : Prop) (c c' : Consumer F) : Prop where
  live : ∀ exc, c.phase ≠ .dead exc
  alive : ok → ∀ exc, c'.phase ≠ .dead exc
  registered : ok → c.registered = c.taken → c'.registered = c'.taken
  handed : ok → c.handed ++ c.phase.pending = c.accepted →
    c'.handed ++ c'.phase.pending = c'.accepted
  dies : ¬ ok → ∃ exc, c'.phase = .dead exc

inductive Moved (ok : Prop) (d d' : Daemon T F) : Prop
  /-- A fanotify event is finished, by a worker or by the reader. -/
  | finished (event : FanotifyEvent T) :
      d'.handled = d.handled ++ [event] →
      (ok → d'.queued.map Prod.fst = d.queued.map Prod.fst ++ [event]) →
      (¬ ok → d'.queued = d.queued) →
      d'.consumer = d.consumer →
      (d'.reader = d.reader ∨ d.reader = none ∧ (ok → d'.reader = none)) → Moved ok d d'
  /-- A consumer moves. -/
  | moved (m : Monitor) :
      d'.handled = d.handled → d'.queued = d.queued → d'.reader = d.reader →
      (∀ m', m' ≠ m → d'.consumer m' = d.consumer m') →
      Turn ok (d.consumer m) (d'.consumer m) → Moved ok d d'
  /-- Nothing the property speaks of changes. -/
  | quiet : ok → d'.handled = d.handled → d'.queued = d.queued → d'.reader = d.reader →
      d'.consumer = d.consumer → Moved ok d d'

/-- A thread has ended or a record is missing. -/
def Lost (d : Daemon T F) : Prop :=
  d.reader ≠ none ∨ (∃ m exc, (d.consumer m).phase = .dead exc) ∨ d.queued.length < d.handled.length

theorem Lost.not_contained {d : Daemon T F} (h : Lost d) : ¬ Contained d := by
  intro hd
  rcases h with hreader | ⟨m, exc, hdead⟩ | hcount
  · exact hreader hd.reader
  · exact hd.alive m exc hdead
  · have hlen := congrArg List.length hd.queued
    rw [List.length_map] at hlen
    omega

theorem Moved.contained {ok : Prop} {d d' : Daemon T F} (h : Moved ok d d') (hok : ok)
    (hd : Contained d) : Contained d' := by
  cases h with
  | finished event hhandled hqueued _ hconsumer hreader =>
      refine ⟨?_, ?_, ?_, ?_, ?_⟩
      · rcases hreader with hreader | ⟨-, hreader⟩
        · rw [hreader]
          exact hd.reader
        · exact hreader hok
      · rw [hconsumer]
        exact hd.alive
      · rw [hqueued hok, hhandled, hd.queued]
      · rw [hconsumer]
        exact hd.registered
      · rw [hconsumer]
        exact hd.handed
  | moved m hhandled hqueued hreader hother hturn =>
      have hcases : ∀ (P : Consumer F → Prop), P (d'.consumer m) → (∀ m', P (d.consumer m')) →
          ∀ m', P (d'.consumer m') := by
        intro P hm hall m'
        by_cases hm' : m' = m
        · rw [hm']
          exact hm
        · rw [hother m' hm']
          exact hall m'
      refine ⟨hreader ▸ hd.reader, ?_, ?_, ?_, ?_⟩
      · exact hcases (fun c => ∀ exc, c.phase ≠ .dead exc) (hturn.alive hok) hd.alive
      · rw [hqueued, hhandled]
        exact hd.queued
      · exact hcases (fun c => c.registered = c.taken)
          (hturn.registered hok (hd.registered m)) hd.registered
      · exact hcases (fun c => c.handed ++ c.phase.pending = c.accepted)
          (hturn.handed hok (hd.handed m)) hd.handed
  | quiet _ hhandled hqueued hreader hconsumer =>
      refine ⟨hreader ▸ hd.reader, ?_, ?_, ?_, ?_⟩
      · rw [hconsumer]
        exact hd.alive
      · rw [hqueued, hhandled]
        exact hd.queued
      · rw [hconsumer]
        exact hd.registered
      · rw [hconsumer]
        exact hd.handed

theorem Moved.lost {ok : Prop} {d d' : Daemon T F} (h : Moved ok d d') (hok : ¬ ok)
    (hinv : Inv d) : Lost d' := by
  cases h with
  | finished event hhandled _ hqueued _ _ =>
      refine .inr (.inr ?_)
      have hcount := hinv.count
      rw [hqueued hok, hhandled, List.length_append, List.length_singleton]
      omega
  | moved m _ _ _ _ hturn =>
      obtain ⟨exc, hdead⟩ := hturn.dies hok
      exact .inr (.inl ⟨m, exc, hdead⟩)
  | quiet hyes => exact absurd hyes hok

/-- A thread that has ended stays ended, and a missing record stays missing. -/
theorem Moved.stays_lost {ok : Prop} {d d' : Daemon T F} (h : Moved ok d d') (hlost : Lost d) :
    Lost d' := by
  cases h with
  | finished event hhandled hqueued hsame hconsumer hreader =>
      rcases hlost with hdead | ⟨m, exc, hdead⟩ | hcount
      · rcases hreader with hreader | ⟨hnone, -⟩
        · exact .inl (hreader ▸ hdead)
        · exact absurd hnone hdead
      · exact .inr (.inl ⟨m, exc, by rw [hconsumer]; exact hdead⟩)
      · refine .inr (.inr ?_)
        have hlen : d'.queued.length ≤ d.queued.length + 1 := by
          by_cases hok : ok
          · have hmap := congrArg List.length (hqueued hok)
            simp only [List.length_map, List.length_append, List.length_singleton] at hmap
            omega
          · rw [hsame hok]
            omega
        rw [hhandled, List.length_append, List.length_singleton]
        omega
  | moved m hhandled hqueued hreader hother hturn =>
      rcases hlost with hdead | ⟨m', exc, hdead⟩ | hcount
      · exact .inl (hreader ▸ hdead)
      · have hne : m' ≠ m := by
          rintro rfl
          exact hturn.live exc hdead
        exact .inr (.inl ⟨m', exc, by rw [hother m' hne]; exact hdead⟩)
      · exact .inr (.inr (by rw [hqueued, hhandled]; exact hcount))
  | quiet _ hhandled hqueued hreader hconsumer =>
      rcases hlost with hdead | ⟨m, exc, hdead⟩ | hcount
      · exact .inl (hreader ▸ hdead)
      · exact .inr (.inl ⟨m, exc, by rw [hconsumer]; exact hdead⟩)
      · exact .inr (.inr (by rw [hqueued, hhandled]; exact hcount))

/-! ## Each kind of step -/

/-- A statement that emits one record finishes its event. -/
theorem finish_moved {d : Daemon T F} (hinv : Inv d) (event : FanotifyEvent T) {w : World T F}
    {x : Py (Frame F) Unit} (h : EmitsOne w x Frame.new) {reader : Option Exc}
    (hreader : reader = d.reader ∨ d.reader = none ∧ (survives (w.audit 0) = true → reader = none))
    (inFlight : List (FanotifyEvent T)) :
    let d' := { d.finish event (Py.final x Frame.new) with reader := reader, inFlight := inFlight }
    Inv d' ∧ Moved (survives (w.audit 0) = true) d d' := by
  obtain ⟨record, hlegible, -, hqueued⟩ := h
  have hmem : ∀ r ∈ (Py.final x Frame.new).queued, r = record := by
    intro r hr
    rw [hqueued] at hr
    split at hr
    · exact List.mem_singleton.1 hr
    · cases hr
  have hlen : (Py.final x Frame.new).queued.length ≤ 1 := by
    rw [hqueued]
    split
    · exact le_rfl
    · exact Nat.zero_le 1
  refine ⟨⟨hinv.engine, ?_, hinv.states, ?_⟩, .finished event rfl ?_ ?_ rfl hreader⟩
  · intro r hr
    rcases List.mem_append.1 hr with hr | hr
    · exact hinv.queue r hr
    · exact hmem r hr ▸ hlegible
  · have hcount := hinv.count
    simp only [Daemon.finish, List.length_append, List.length_map, List.length_singleton]
    omega
  · intro hok
    rw [if_pos hok] at hqueued
    simp only [Daemon.finish, hqueued, List.map_append, List.map_cons, List.map_nil]
  · intro hok
    rw [if_neg hok] at hqueued
    simp only [Daemon.finish, hqueued, List.map_nil, List.append_nil]

/-- Changing one consumer keeps the invariant if it works on a state that can be reported on. -/
theorem setConsumer_inv {d : Daemon T F} (hinv : Inv d) (m : Monitor) {c : Consumer F}
    (hc : ∀ state, c.phase.state? = some state → Reportable state) : Inv (d.setConsumer m c) := by
  refine ⟨hinv.engine, hinv.queue, fun m' state h => ?_, hinv.count⟩
  by_cases hm : m' = m
  · subst hm
    have hself : (d.setConsumer m' c).consumer m' = c := Function.update_self ..
    rw [hself] at h
    exact hc state h
  · have hother : (d.setConsumer m c).consumer m' = d.consumer m' := Function.update_of_ne hm ..
    rw [hother] at h
    exact hinv.states m' state h

theorem setConsumer_moved {ok : Prop} {d : Daemon T F} (m : Monitor) {c : Consumer F}
    (h : Turn ok (d.consumer m) c) : Moved ok d (d.setConsumer m c) := by
  refine .moved m rfl rfl rfl (fun m' hm => Function.update_of_ne hm ..) ?_
  have hself : (d.setConsumer m c).consumer m = c := Function.update_self ..
  rw [hself]
  exact h

/-- `Moved` does not look at the queue, the engine or the ranks. -/
theorem Moved.shared {ok : Prop} {d d' : Daemon T F} (h : Moved ok d d')
    (queue queue' : List (Mapping F)) (engine : Engine T F) (ranks : Response.Ranks) :
    Moved ok { d with queue := queue }
      { d' with queue := queue', engine := engine, ranks := ranks } := by
  cases h with
  | finished event h₁ h₂ h₃ h₄ h₅ => exact .finished event h₁ h₂ h₃ h₄ h₅
  | moved m h₁ h₂ h₃ h₄ h₅ => exact .moved m h₁ h₂ h₃ h₄ h₅
  | quiet h₁ h₂ h₃ h₄ h₅ => exact .quiet h₁ h₂ h₃ h₄ h₅

/-- An event that is answered is registered, and its state is next to be audited. -/
theorem consume_moved (c : Setup T F) {d : Daemon T F} (hinv : Inv d) {m : Monitor}
    (hwait : (d.consumer m).phase = .waiting) (event : Mapping F)
    {x : Except PyExc (Answer T F) × Engine T F} (hx : Ranged x) (hans : ∃ a, x.1 = .ok a) :
    Inv (consume c d m event x) ∧ Moved True d (consume c d m event x) := by
  obtain ⟨r, e⟩ := x
  obtain ⟨a, ha⟩ := hans
  cases ha
  unfold consume
  dsimp only
  cases hstate : a.state? with
  | none =>
      dsimp only
      have hinv' := setConsumer_inv hinv m (c := { d.consumer m with
        taken := (d.consumer m).taken ++ [event]
        registered := (d.consumer m).registered ++ [event] }) (hinv.states m)
      refine ⟨⟨hx.engine, hinv'.queue, hinv'.states, hinv'.count⟩, ?_⟩
      refine (setConsumer_moved m ⟨?_, ?_, ?_, ?_, ?_⟩).shared d.queue d.queue e d.ranks
      · simp [hwait]
      · simp [hwait]
      · intro _ h
        simp only [h]
      · exact fun _ h => h
      · exact fun h => absurd trivial h
  | some s =>
      dsimp only
      have hs : InRange s := hx.answer a s rfl hstate
      have hinv' := setConsumer_inv hinv m (c := { d.consumer m with
        taken := (d.consumer m).taken ++ [event]
        registered := (d.consumer m).registered ++ [event]
        phase := .correlated (s.toDict c.seconds)
        accepted := (d.consumer m).accepted ++ [s.toDict c.seconds] }) (by
          intro state h
          cases h
          exact toDict_reportable c.seconds hs)
      refine ⟨⟨hx.engine, hinv'.queue, hinv'.states, hinv'.count⟩, ?_⟩
      refine (setConsumer_moved m ⟨?_, ?_, ?_, ?_, ?_⟩).shared d.queue d.queue e d.ranks
      · simp [hwait]
      · exact fun _ exc h => nomatch h
      · intro _ h
        simp only [h]
      · intro _ h
        simp only [hwait, Phase.pending, List.append_nil] at h
        simp only [Phase.pending, h]
      · exact fun h => absurd trivial h

/-- A step that only changes the phase. -/
theorem turn_phase {ok : Prop} {c : Consumer F} {phase : Phase F}
    (hlive : ∀ exc, c.phase ≠ .dead exc) (halive : ok → ∀ exc, phase ≠ .dead exc)
    (hpending : ok → phase.pending = c.phase.pending) (hdies : ¬ ok → ∃ exc, phase = .dead exc) :
    Turn ok c { c with phase := phase } := by
  refine ⟨hlive, halive, fun _ h => h, fun hok h => ?_, hdies⟩
  show c.handed ++ phase.pending = c.accepted
  rw [hpending hok]
  exact h

/-- `_audit_correlation` catches the same exceptions as `_emit_record`. -/
theorem auditCorrelation_cases (state : Mapping F) (fault : Option AuditFault) :
    survives (ended fault) = true ∧ auditCorrelation state fault = .audited state ∨
      ¬ survives (ended fault) = true ∧ ∃ exc, auditCorrelation state fault = .dead exc := by
  unfold auditCorrelation
  cases ended fault with
  | ok _ => exact .inl ⟨rfl, rfl⟩
  | error e =>
      have hsame : e.isIn [.osError, .typeError, .valueError] =
          e.isIn [.osError, .valueError, .typeError] := by
        simp only [Exc.isIn, List.any_cons, List.any_nil, Bool.or_false]
        rw [Bool.or_comm (e.cls.isA .typeError)]
      simp only [hsame, survives]
      split
      · next he => exact .inl ⟨he, rfl⟩
      · next he => exact .inr ⟨he, e, rfl⟩

theorem audit_moved {d : Daemon T F} (hinv : Inv d) {m : Monitor} {state : Mapping F}
    (hphase : (d.consumer m).phase = .correlated state) (fault : Option AuditFault) :
    let d' := d.setConsumer m { d.consumer m with phase := auditCorrelation state fault }
    Inv d' ∧ Moved (survives (ended fault) = true) d d' := by
  have hlive : ∀ exc, (d.consumer m).phase ≠ .dead exc := by simp [hphase]
  have hstate : Reportable state := hinv.states m state (by rw [hphase]; rfl)
  rcases auditCorrelation_cases state fault with ⟨hok, hnext⟩ | ⟨hok, exc, hnext⟩
  · rw [hnext]
    refine ⟨setConsumer_inv hinv m ?_, setConsumer_moved m (turn_phase hlive ?_ ?_ ?_)⟩
    · intro state' h
      cases h
      exact hstate
    · exact fun _ exc h => nomatch h
    · intro _
      rw [hphase]
      rfl
    · exact fun h => absurd hok h
  · rw [hnext]
    refine ⟨setConsumer_inv hinv m ?_, setConsumer_moved m (turn_phase hlive ?_ ?_ ?_)⟩
    · intro state' h
      cases h
    · exact fun h => absurd h hok
    · exact fun h => absurd h hok
    · exact fun _ => ⟨exc, rfl⟩

theorem respond_moved {d : Daemon T F} (hinv : Inv d) {m : Monitor} {state : Mapping F}
    (hphase : (d.consumer m).phase = .audited state) :
    let d' := d.setConsumer m { d.consumer m with
      phase := enteredPhase state d.ranks
      handed := (d.consumer m).handed ++ [state] }
    Inv d' ∧ Moved True d d' := by
  have hstate : Reportable state := hinv.states m state (by rw [hphase]; rfl)
  have hentered : (enteredPhase state d.ranks).state? = some state ∧
      (enteredPhase state d.ranks).pending = [] ∧
      ∀ exc, enteredPhase state d.ranks ≠ .dead exc := by
    unfold enteredPhase
    cases Response.enter state d.ranks with
    | answered report => exact ⟨rfl, rfl, fun exc h => nomatch h⟩
    | acting a previous => exact ⟨rfl, rfl, fun exc h => nomatch h⟩
  obtain ⟨hnext, hpending, halive⟩ := hentered
  refine ⟨setConsumer_inv hinv m ?_, setConsumer_moved m ⟨?_, ?_, ?_, ?_, ?_⟩⟩
  · intro state' h
    rw [hnext] at h
    cases h
    exact hstate
  · simp [hphase]
  · exact fun _ => halive
  · exact fun _ h => h
  · intro _ h
    rw [hphase] at h
    simp only [hpending, List.append_nil]
    exact h
  · exact fun h => absurd trivial h

theorem act_moved (c : Setup T F) {d : Daemon T F} (hinv : Inv d) {m : Monitor}
    {state : Mapping F} {a : Response.Action} {previous : Int}
    (hphase : (d.consumer m).phase = .acting state a previous)
    (outcome : Except PyStr (Mapping F)) :
    let d' := d.setConsumer m { d.consumer m with
      phase := actedPhase c state a previous outcome }
    Inv d' ∧ Moved True d d' := by
  have hstate : Reportable state := hinv.states m state (by rw [hphase]; rfl)
  have hacted : ∃ report, actedPhase c state a previous outcome =
      .reporting state report (some (a, previous)) := by
    unfold actedPhase
    cases outcome with
    | ok details =>
        obtain ⟨report, hreport⟩ := act_ok c.automaticRuntimeActions state a
          (o := .completed details) (fun exc h => nomatch h)
        simp only [hreport]
        exact ⟨report, rfl⟩
    | error message =>
        obtain ⟨report, hreport⟩ := act_ok c.automaticRuntimeActions state a
          (o := .declined message) (fun exc h => nomatch h)
        simp only [hreport]
        exact ⟨report, rfl⟩
  obtain ⟨report, hnext⟩ := hacted
  rw [hnext]
  refine ⟨setConsumer_inv hinv m ?_, setConsumer_moved m (turn_phase ?_ ?_ ?_ ?_)⟩
  · intro state' h
    cases h
    exact hstate
  · simp [hphase]
  · exact fun _ exc h => nomatch h
  · intro _
    rw [hphase]
    rfl
  · exact fun h => absurd trivial h

/-- `_result` catches nothing: it returns exactly when the record was written. -/
theorem resultPhase_cases {state : Mapping F} (h : Reportable state) (report : Response.Report F)
    (stamp : Response.Stamp F) (fault : Option AuditFault) :
    fault = none ∧ (∃ result, resultPhase state report stamp fault = .reported state result) ∨
      ¬ fault = none ∧ ∃ exc, resultPhase state report stamp fault = .dead exc := by
  obtain ⟨result, hresult⟩ := result_ok h stamp report
  unfold resultPhase
  rw [hresult]
  cases fault with
  | none => exact .inl ⟨rfl, result, rfl⟩
  | some fault => exact .inr ⟨nofun, fault.1, rfl⟩

theorem report_moved {d : Daemon T F} (hinv : Inv d) {m : Monitor} {state : Mapping F}
    {report : Response.Report F} {rank : Option (Response.Action × Int)}
    (hphase : (d.consumer m).phase = .reporting state report rank) (stamp : Response.Stamp F)
    (fault : Option AuditFault) (ranks : Response.Ranks) :
    let d' := { d.setConsumer m { d.consumer m with
      phase := resultPhase state report stamp fault } with ranks := ranks }
    Inv d' ∧ Moved (fault = none) d d' := by
  have hlive : ∀ exc, (d.consumer m).phase ≠ .dead exc := by simp [hphase]
  have hstate : Reportable state := hinv.states m state (by rw [hphase]; rfl)
  rcases resultPhase_cases hstate report stamp fault with
    ⟨hok, result, hnext⟩ | ⟨hok, exc, hnext⟩
  · rw [hnext]
    have hinv' := setConsumer_inv hinv m (c := { d.consumer m with
      phase := .reported state result }) (by
        intro state' h
        cases h
        exact hstate)
    refine ⟨⟨hinv'.engine, hinv'.queue, hinv'.states, hinv'.count⟩, ?_⟩
    refine (setConsumer_moved m (turn_phase hlive ?_ ?_ ?_)).shared d.queue d.queue d.engine ranks
    · exact fun _ exc h => nomatch h
    · intro _
      rw [hphase]
      rfl
    · exact fun h => absurd hok h
  · rw [hnext]
    have hinv' := setConsumer_inv hinv m (c := { d.consumer m with phase := .dead exc }) (by
      intro state' h
      cases h)
    refine ⟨⟨hinv'.engine, hinv'.queue, hinv'.states, hinv'.count⟩, ?_⟩
    refine (setConsumer_moved m (turn_phase hlive ?_ ?_ ?_)).shared d.queue d.queue d.engine ranks
    · exact fun h => absurd h hok
    · exact fun h => absurd h hok
    · exact fun _ => ⟨exc, rfl⟩

theorem store_moved (c : Setup T F) {d : Daemon T F} (hinv : Inv d) {m : Monitor}
    {state : Mapping F} {result : Response.ActionResult F}
    (hphase : (d.consumer m).phase = .reported state result) :
    let x := stored c state result d.engine
    let d' := { d.setConsumer m { d.consumer m with phase := x.1 } with engine := x.2 }
    Inv d' ∧ Moved True d d' := by
  have hstate : Reportable state := hinv.states m state (by rw [hphase]; rfl)
  have hstored : (stored c state result d.engine).1 = .waiting ∧
      (stored c state result d.engine).2.InRange := by
    unfold stored
    split
    · next pid correlationId hpid _ =>
      obtain ⟨n, hn⟩ := hstate.stored pid hpid
      simp only [hn]
      exact ⟨trivial, recordActionResult_inRange hinv.engine _ _ _⟩
    · exact ⟨rfl, hinv.engine⟩
  obtain ⟨hnext, hengine⟩ := hstored
  dsimp only
  rw [hnext]
  have hinv' := setConsumer_inv hinv m (c := { d.consumer m with phase := .waiting }) (by
    intro state' h
    cases h)
  refine ⟨⟨hengine, hinv'.queue, hinv'.states, hinv'.count⟩, ?_⟩
  refine (setConsumer_moved m (turn_phase ?_ ?_ ?_ ?_)).shared d.queue d.queue _ d.ranks
  · simp [hphase]
  · exact fun _ exc h => nomatch h
  · intro _
    rw [hphase]
    rfl
  · exact fun h => absurd trivial h

/-! ## Every run -/

/-- One step keeps the invariant, and moves the threads by whether it absorbs its failure. -/
theorem step_moved (c : Setup T F) {d d' : Daemon T F} {s : Step T F} (hinv : Inv d)
    (h : step c d s = some d') : Inv d' ∧ Moved s.Absorbed d d' := by
  cases s with
  | overflow event w fault =>
      simp only [step] at h
      split at h
      · next hcond =>
        cases h
        obtain ⟨hemits, hraised⟩ := recordOverflow_emitsOne (auditedBy w fault) event
        refine finish_moved hinv event hemits (.inr ⟨hcond.1, fun hok => ?_⟩) d.inFlight
        rw [hok] at hraised
        exact Option.isNone_iff_eq_none.1 hraised
      · cases h
  | ignore event =>
      simp only [step] at h
      split at h
      · cases h
        exact ⟨hinv, .quiet trivial rfl rfl rfl rfl⟩
      · cases h
  | saturated event w written fault =>
      simp only [step] at h
      split at h
      · next hcond =>
        cases h
        obtain ⟨hemits, hraised⟩ := respondSaturated_emitsOne
          (w := { auditedBy w fault with write := fun _ => .ok written }) event (.inr rfl)
        refine finish_moved hinv event hemits (.inr ⟨hcond.1, fun hok => ?_⟩) d.inFlight
        rw [hok] at hraised
        exact Option.isNone_iff_eq_none.1 hraised
      · cases h
  | submit event =>
      simp only [step] at h
      split at h
      · cases h
        exact ⟨⟨hinv.engine, hinv.queue, hinv.states, hinv.count⟩, .quiet trivial rfl rfl rfl rfl⟩
      · cases h
  | handle i w b fault =>
      simp only [step] at h
      split at h
      · cases h
      · next event _ =>
        cases h
        have hlegible : ∀ t v, (auditedBy (w.analysedBy b event) fault).analysis t = .ok v →
            LegibleAnalysis v := by
          intro t v hv
          change (b.analyzeOpenFdAsync event.filepath t).map Json.obj = .ok v at hv
          cases hjob : b.analyzeOpenFdAsync event.filepath t with
          | error e =>
              rw [hjob] at hv
              cases hv
          | ok result =>
              rw [hjob] at hv
              cases hv
              exact legibleAnalysis_bench hjob
        exact finish_moved hinv event (handleEvent_emitsOne hlegible) (.inl rfl) _
  | take =>
      simp only [step] at h
      split at h
      · next record queue hwait hqueue =>
        cases h
        have hinv' : Inv { d with queue := queue } := by
          refine ⟨hinv.engine, fun r hr => hinv.queue r ?_, hinv.states, hinv.count⟩
          rw [hqueue]
          exact List.mem_cons_of_mem _ hr
        have hlegible : Legible record := by
          refine hinv.queue record ?_
          rw [hqueue]
          exact List.mem_cons_self ..
        obtain ⟨pid, hpid⟩ := hlegible.pidOf
        obtain ⟨r, hr⟩ := hlegible.registrationOf
        obtain ⟨hinv'', hmoved⟩ := consume_moved c hinv' hwait record
          (registerPreExecution_ranged hinv.engine record) (registerPreExecution_answers hpid hr _)
        exact ⟨hinv'', hmoved.shared d.queue _ _ _⟩
      · cases h
  | receive event =>
      simp only [step] at h
      split at h
      · next hwait =>
        cases h
        exact consume_moved c hinv hwait event.record
          (ingestRuntimeEvent_ranged hinv.engine event.record)
          (ingestRuntimeEvent_answers event d.engine)
      · cases h
  | expire now =>
      cases h
      exact ⟨⟨hinv.engine.expire now, hinv.queue, hinv.states, hinv.count⟩,
        .quiet trivial rfl rfl rfl rfl⟩
  | audit m fault =>
      simp only [step] at h
      split at h
      · next hphase =>
        cases h
        exact audit_moved hinv hphase fault
      · cases h
  | respond m =>
      simp only [step] at h
      split at h
      · next hphase =>
        cases h
        exact respond_moved hinv hphase
      · cases h
  | act m outcome =>
      simp only [step] at h
      split at h
      · next hphase =>
        cases h
        exact act_moved c hinv hphase outcome
      · cases h
  | report m stamp fault =>
      simp only [step] at h
      split at h
      · next hphase =>
        cases h
        exact report_moved hinv hphase stamp fault _
      · cases h
  | store m =>
      simp only [step] at h
      split at h
      · next hphase =>
        cases h
        exact store_moved c hinv hphase
      · cases h

theorem contained_start : Contained ({} : Daemon T F) :=
  ⟨rfl, fun _ _ => nofun, rfl, fun _ => rfl, fun _ => rfl⟩

/-- What a run leaves, by what it started from. -/
theorem run_lost (c : Setup T F) {steps : List (Step T F)} {d d' : Daemon T F} (hinv : Inv d)
    (hlost : Lost d) (h : run c steps d = some d') : Lost d' := by
  induction steps generalizing d with
  | nil =>
      cases h
      exact hlost
  | cons s steps ih =>
      rw [run] at h
      split at h
      · cases h
      · next hstep =>
        obtain ⟨hinv', hmoved⟩ := step_moved c hinv hstep
        exact ih hinv' (hmoved.stays_lost hlost) h

theorem run_contained_iff (c : Setup T F) {steps : List (Step T F)} {d d' : Daemon T F}
    (hinv : Inv d) (hd : Contained d) (h : run c steps d = some d') :
    Contained d' ↔ ∀ s ∈ steps, s.Absorbed := by
  -- by induction on the run; the first step that does not absorb loses something for good
  induction steps generalizing d with
  | nil =>
      cases h
      exact ⟨fun _ _ => nofun, fun _ => hd⟩
  | cons s steps ih =>
      rw [run] at h
      split at h
      · cases h
      · next hstep =>
        obtain ⟨hinv', hmoved⟩ := step_moved c hinv hstep
        rw [List.forall_mem_cons]
        by_cases hok : s.Absorbed
        · rw [ih hinv' (hmoved.contained hok hd) h]
          exact ⟨fun hall => ⟨hok, hall⟩, fun hall => hall.2⟩
        · have hlost : Lost d' := run_lost c hinv' (hmoved.lost hok hinv) h
          exact ⟨fun hd' => absurd hd' hlost.not_contained, fun hall => absurd hall.1 hok⟩

/-- **Audit failures are contained exactly when every call site catches its own.** In every state a
    run reaches, no thread has ended, every handled event is queued, every taken event registered
    and every accepted state handed on, if and only if no call of `record` inside `_result` fails
    and the others fail with `OSError`, `ValueError` or `TypeError` only. -/
theorem audit_failures_contained_iff (c : Setup T F) {steps : List (Step T F)} {d : Daemon T F}
    (h : run c steps {} = some d) :
    (∀ earlier d', earlier <+: steps → run c earlier {} = some d' → Contained d') ↔
      ∀ s ∈ steps, s.Absorbed := by
  constructor
  · intro hall
    exact (run_contained_iff c inv_start contained_start h).1 (hall steps d (List.prefix_refl _) h)
  · intro hall earlier d' hearlier hrun
    refine (run_contained_iff c inv_start contained_start hrun).2 fun s hs => hall s ?_
    exact hearlier.subset hs

/-! ## Failures that are not caught -/

def sampleSetup : Setup ℤ SampleFloat where
  env := sampleEnv
  correlation := acceptedDefaultPolicy
  fanotify := tmpPolicy
  maxPendingEvents := 4
  automaticRuntimeActions := false
  seconds n := .int n

def execEvent : EbpfEvent where
  eventType := .processExec
  timestampNs := 5
  pid := 7
  tgid := 7
  ppid := 1
  uid := 0
  comm := py "x"
  executableIdentifier := some (py "/tmp/x")

def sampleStamp : Response.Stamp SampleFloat := ⟨py "1", .zero, py "1970-01-01T00:00:00+00:00"⟩

def diskFull : AuditFault := ⟨⟨.osError, py "No space left on device"⟩, by decide⟩

/-- What `record` raises when the log ends in a fragment. -/
def invalidTail : AuditFault := ⟨⟨.auditIntegrityError, py "INVALID_TAIL"⟩, by decide⟩

/-- The eBPF consumer takes an exec event; its correlation record and its response record end as
    given. -/
def execRun (correlation response : Option AuditFault) : List (Step ℤ SampleFloat) :=
  [.receive execEvent, .audit .ebpf correlation, .respond .ebpf, .act .ebpf (.ok []),
    .report .ebpf sampleStamp response]

/-- A full disk when the correlation is audited does no harm. -/
theorem full_disk_contained :
    ∃ d, run sampleSetup (execRun (some diskFull) none ++ [.store .ebpf]) {} = some d ∧
      ∀ earlier d', earlier <+: execRun (some diskFull) none ++ [.store .ebpf] →
        run sampleSetup earlier {} = some d' → Contained d' := by
  refine ⟨_, rfl, (audit_failures_contained_iff sampleSetup rfl).2 ?_⟩
  simp only [execRun, List.cons_append, List.nil_append, List.forall_mem_cons, List.not_mem_nil,
    false_implies, implies_true, Step.Absorbed, and_true, true_and]
  decide

/-- A full disk when the response is audited ends the eBPF consumer; a log that ends
    in a fragment keeps a handled event off the queue, and ends the reader when it records an
    overflow. -/
theorem audit_failures_end_threads :
    (∃ d, run sampleSetup (execRun none (some diskFull)) {} = some d ∧
      (d.consumer .ebpf).phase = .dead diskFull.1 ∧ ¬ Contained d) ∧
    (∃ d, run sampleSetup [.submit tmpEvent, .handle 0 (denyingWorld (.ok 8))
        (benchOf (.error ⟨.osError, py "EIO"⟩)) (some invalidTail)] {} = some d ∧
      d.handled = [tmpEvent] ∧ d.queued = [] ∧ ¬ Contained d) ∧
    ∃ d, run sampleSetup [.overflow { tmpEvent with mask := fanQOverflow } (denyingWorld (.ok 8))
        (some invalidTail)] {} = some d ∧
      d.reader = some invalidTail.1 ∧ ¬ Contained d := by
  refine ⟨⟨_, rfl, rfl, fun h => ?_⟩, ⟨_, rfl, rfl, rfl, fun h => ?_⟩, ⟨_, rfl, rfl, fun h => ?_⟩⟩
  · exact h.alive .ebpf diskFull.1 rfl
  · have hqueued : ([] : List (FanotifyEvent ℤ)) = [tmpEvent] := h.queued
    cases hqueued
  · exact absurd h.reader (by decide)

end Elyra.Service
