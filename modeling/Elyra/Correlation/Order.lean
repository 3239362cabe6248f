import Elyra.Correlation.Denial
import Elyra.Counting.Tally

set_option autoImplicit false
set_option linter.unusedSectionVars false

/-! # The order of runtime events

Writes, renames and connections score a state through keys: a key that is new to its rule's set is
remembered, and scored while the rule is below its cap. So what a state keeps of such events is a
`Tally` of its rules, which does not depend on their order, and the scores and the action are
functions of the tally and of what the state was when the events began.

The events of one process are followed through a run with any calls for other processes in between,
for as long as the state stays live. -/

namespace Elyra.Correlation

open Elyra.Python Elyra.Counting

variable {T F : Type} [Zero T] [Min T] [Sub T] [LE T] [DecidableLE T] [LT T] [DecidableLT T]
variable [FloatNum F]
variable {env : Env T} {p : AcceptedPolicy T}

/-! ## The tally of a state -/

/-- The set of keys a rule has seen. -/
def ExecutionState.seen (s : ExecutionState T F) : Rule → List PyStr
  | .distinctFileWrite => s.distinctFiles
  | .fileRename => s.renameIdentifiers
  | .outboundConnection => s.outboundConnections
  | .childProcessExec => []
  | .executableIdentifierMismatch => []

def tally (s : ExecutionState T F) : Tally Rule PyStr :=
  ⟨s.occurrences, fun r => (s.seen r).toFinset⟩

/-- `max_occurrences` as a number. -/
def cap (p : AcceptedPolicy T) (r : Rule) : Nat := (p.spec r).maxOccurrences.toNat

/-- What the counts of the rules are worth. -/
def earned (p : AcceptedPolicy T) (count : Rule → Nat) : Int :=
  (Rule.all.map fun r => (p.spec r).weight * count r).sum

theorem earned_update (p : AcceptedPolicy T) (count : Rule → Nat) (r : Rule) :
    earned p (Function.update count r (count r + 1)) = earned p count + (p.spec r).weight := by
  cases r <;> simp [earned, Rule.all, Function.update] <;> ring

theorem occurrences_congr {s s' : ExecutionState T F}
    (h : s'.ruleOccurrences = s.ruleOccurrences) : s'.occurrences = s.occurrences := by
  funext r
  rw [ExecutionState.occurrences, ExecutionState.occurrences, h]

/-- The part of the weight that the counts do not explain; no event changes it. -/
def offset (p : AcceptedPolicy T) (s : ExecutionState T F) : Int :=
  indicatorWeight s - earned p s.occurrences

/-- From `s` to `s'` the state has seen these keys, and nothing else the scores depend on. -/
structure Noted (p : AcceptedPolicy T) (xs : List (Rule × PyStr)) (s s' : ExecutionState T F) :
    Prop where
  pid : s'.pid = s.pid
  correlationId : s'.correlationId = s.correlationId
  status : s'.status = s.status
  preScore : s'.preExecutionScore = s.preExecutionScore
  tallied : tally s' = (tally s).addAll (cap p) xs
  offset_eq : offset p s' = offset p s
  weight : indicatorWeight s ≤ indicatorWeight s'

theorem Noted.refl (s : ExecutionState T F) : Noted p [] s s :=
  ⟨rfl, rfl, rfl, rfl, rfl, rfl, le_rfl⟩

theorem Noted.trans {xs ys : List (Rule × PyStr)} {s s' s'' : ExecutionState T F}
    (h : Noted p xs s s') (h' : Noted p ys s' s'') : Noted p (xs ++ ys) s s'' := by
  refine ⟨h'.pid.trans h.pid, h'.correlationId.trans h.correlationId, h'.status.trans h.status,
    h'.preScore.trans h.preScore, ?_, h'.offset_eq.trans h.offset_eq, h.weight.trans h'.weight⟩
  rw [h'.tallied, h.tallied, Tally.addAll_append]

/-- The scores of `s'` are up to date, and its action is that of `s`, escalated to what they ask
    for. -/
structure Scored (p : AcceptedPolicy T) (s s' : ExecutionState T F) : Prop where
  runtime : s'.runtimeScore = min 100 (indicatorWeight s')
  combined : s'.combinedScore = min 100 (s'.preExecutionScore + s'.runtimeScore)
  action : s'.recommendedAction = escalate s.recommendedAction (actionFor p s')

/-- Escalating in two steps, the second no lower. -/
theorem escalate_escalate {a b c : Action} (h : b.rank ≤ c.rank) :
    escalate (escalate a b) c = escalate a c := by
  unfold escalate
  by_cases hab : b.rank < a.rank
  · rw [if_pos hab]
  · rw [if_neg hab, if_neg (not_lt.2 h), if_neg (not_lt.2 ((not_lt.1 hab).trans h))]

theorem actionFor_mono {s s' : ExecutionState T F} (hstatus : s'.status = s.status)
    (h : s.combinedScore ≤ s'.combinedScore) : (actionFor p s).rank ≤ (actionFor p s').rank := by
  by_cases hs : s.status = .deniedPreExecution
  · have hs' : s'.status = .deniedPreExecution := hstatus.trans hs
    simp only [actionFor, if_pos hs, if_pos hs', le_refl]
  · have hs' : s'.status ≠ .deniedPreExecution := by
      rw [hstatus]
      exact hs
    rw [actionFor_of_not_denied hs, actionFor_of_not_denied hs']
    exact scoreAction_mono p h

theorem Scored.trans {xs : List (Rule × PyStr)} {s s' s'' : ExecutionState T F}
    (h : Scored p s s') (hn : Noted p xs s' s'') (h' : Scored p s' s'') : Scored p s s'' := by
  refine ⟨h'.runtime, h'.combined, ?_⟩
  have hweight := hn.weight
  have hcombined : s'.combinedScore ≤ s''.combinedScore := by
    rw [h.combined, h'.combined, h.runtime, h'.runtime, hn.preScore]
    omega
  rw [h'.action, h.action, escalate_escalate (actionFor_mono hn.status hcombined)]

/-! ## One event -/

theorem recalculate_noted (env : Env T) (p : AcceptedPolicy T) (reason : PyStr)
    (s : ExecutionState T F) (reads : Nat) :
    Noted p [] s (recalculate env p reason s reads).1 ∧
      Scored p s (recalculate env p reason s reads).1 := by
  obtain ⟨ts, h⟩ := recalculate_fst env p reason s reads
  have hmax := p.facts.scoreMaximum
  rw [h]
  refine ⟨⟨rfl, rfl, rfl, rfl, rfl, rfl, le_rfl⟩, ?_, ?_, rfl⟩
  · simp only [rescored, hmax, indicatorWeight]
  · simp only [rescored, hmax]

/-- A key that is new to the set of its rule, once it is in the set. -/
theorem applyRule_noted (env : Env T) {r : Rule} {key : PyStr} (evidence : Json F)
    {s s' : ExecutionState T F} (hpid : s'.pid = s.pid) (hid : s'.correlationId = s.correlationId)
    (hstatus : s'.status = s.status) (hpre : s'.preExecutionScore = s.preExecutionScore)
    (hind : s'.runtimeIndicators = s.runtimeIndicators)
    (hocc : s'.ruleOccurrences = s.ruleOccurrences)
    (haction : s'.recommendedAction = s.recommendedAction)
    (hseen : s'.seen = Function.update s.seen r (s.seen r ++ [key])) (hnew : key ∉ s.seen r)
    (reads : Nat) :
    Noted p [(r, key)] s (applyRule env p r evidence s' reads).1 ∧
      ((applyRule env p r evidence s' reads).1.recommendedAction = s.recommendedAction ∨
        Scored p s (applyRule env p r evidence s' reads).1) := by
  have hcount := occurrences_congr hocc
  have hweight : indicatorWeight s' = indicatorWeight s := by
    rw [indicatorWeight, indicatorWeight, hind]
  have hkeys : (fun r' => (s'.seen r').toFinset) = Function.update (fun r' => (s.seen r').toFinset) r
      (insert key (s.seen r).toFinset) := by
    funext r'
    rw [hseen]
    by_cases hr : r' = r
    · subst hr
      rw [Function.update_self, Function.update_self]
      ext k
      simp
    · rw [Function.update_of_ne hr, Function.update_of_ne hr]
  have hmem : key ∉ (tally s).keys r := by
    simpa [tally] using hnew
  have hcap : (p.spec r).maxOccurrences ≤ (s.occurrences r : Int) ↔ cap p r ≤ s.occurrences r :=
    (Int.toNat_le).symm
  have hadd : (tally s).addAll (cap p) [(r, key)] =
      { count := if cap p r ≤ s.occurrences r then s.occurrences
          else Function.update s.occurrences r (s.occurrences r + 1)
        keys := fun r' => (s'.seen r').toFinset } := by
    rw [Tally.addAll_singleton, Tally.add, if_neg hmem, hkeys]
    rfl
  unfold applyRule
  dsimp only
  rw [hcount]
  by_cases hfull : cap p r ≤ s.occurrences r
  · rw [if_pos (hcap.2 hfull)]
    rw [if_pos hfull] at hadd
    refine ⟨⟨hpid, hid, hstatus, hpre, ?_, ?_, hweight.ge⟩, .inl haction⟩
    · rw [hadd, tally, hcount]
    · rw [offset, offset, hweight, hcount]
  · rw [if_neg (fun h => hfull (hcap.1 h))]
    rw [if_neg hfull] at hadd
    generalize hgrown : ({ s' with
      ruleOccurrences := s'.ruleOccurrences.set r (s.occurrences r + 1)
      runtimeIndicators := s'.runtimeIndicators ++ [⟨r, (p.spec r).weight, s.occurrences r + 1,
        (p.spec r).maxOccurrences, evidence, (p.spec r).description⟩] } :
        ExecutionState T F) = grown
    have hgcount : grown.occurrences =
        Function.update s.occurrences r (s.occurrences r + 1) := by
      funext r'
      subst hgrown
      rw [ExecutionState.occurrences]
      by_cases hr : r' = r
      · subst hr
        rw [Function.update_self, Dict.get?_set_self, Option.getD_some]
      · rw [Function.update_of_ne hr, Dict.get?_set_ne _ hr, ← hcount]
        rfl
    have hgweight : indicatorWeight grown = indicatorWeight s + (p.spec r).weight := by
      subst hgrown
      simp only [indicatorWeight, hind, List.map_append, List.sum_append, List.map_cons,
        List.map_nil, List.sum_cons, List.sum_nil, add_zero]
    have hpositive := (p.spec_facts r).2.1
    have hnoted : Noted p [(r, key)] s grown := by
      refine ⟨?_, ?_, ?_, ?_, ?_, ?_, ?_⟩
      · rw [← hgrown, ← hpid]
      · rw [← hgrown, ← hid]
      · rw [← hgrown, ← hstatus]
      · rw [← hgrown, ← hpre]
      · rw [hadd, tally, hgcount, ← hgrown]
        rfl
      · rw [offset, offset, hgweight, hgcount, earned_update]
        ring
      · rw [hgweight]
        omega
    have hgaction : grown.recommendedAction = s.recommendedAction := by
      rw [← hgrown, ← haction]
    obtain ⟨hrecalculated, hscored⟩ :=
      recalculate_noted env p r.name grown reads
    refine ⟨hnoted.trans hrecalculated, .inr ⟨hscored.runtime, hscored.combined, ?_⟩⟩
    rw [hscored.action, hgaction]

/-- The conversions that stand before the branch of an event succeed. -/
def converts (event : Mapping F) : Bool :=
  (intOr event "ppid" 0).isOk && (intOr event "uid" 0).isOk

/-- The rule and the key of a write, a rename or a connection. -/
def keyOf (event : Mapping F) : Option (Rule × PyStr) :=
  match kindOf event with
  | .fileWrite =>
      match lookup (py "distinct_file_key") event with
      | none => none
      | some .null => none
      | some v => some (.distinctFileWrite, pyStr v)
  | .fileRename =>
      some (.fileRename, truthyText event "executable_identifier" (py "UNKNOWN_IDENTIFIER"))
  | .networkConnect => some (.outboundConnection, endpointOf event)
  | _ => none

/-- The key an event leaves; an event that raises before its branch leaves none. -/
def recorded (event : Mapping F) : Option (Rule × PyStr) :=
  if converts event then keyOf event else none

/-- A write, a rename or a connection. -/
def KeyEvent (event : Mapping F) : Prop :=
  kindOf event = .fileWrite ∨ kindOf event = .fileRename ∨ kindOf event = .networkConnect

theorem intOr_isOk (event : Mapping F) (key : String) (d d' : Int) :
    (intOr event key d).isOk = (intOr event key d').isOk := by
  unfold intOr
  cases getTruthy event key with
  | none => rfl
  | some v => rfl

theorem touch_noted (p : AcceptedPolicy T) (event : Mapping F) (now : T)
    (s : ExecutionState T F) :
    Noted p [] s (touch event now s).2 ∧
      (touch event now s).2.runtimeScore = s.runtimeScore ∧
      (touch event now s).2.combinedScore = s.combinedScore ∧
      (touch event now s).2.recommendedAction = s.recommendedAction ∧
      ((touch event now s).1 = .ok () ↔ converts event = true) := by
  unfold touch converts
  rw [intOr_isOk event "ppid" 0 s.ppid, intOr_isOk event "uid" 0 s.uid]
  dsimp only
  cases intOr event "ppid" s.ppid with
  | error x => exact ⟨⟨rfl, rfl, rfl, rfl, rfl, rfl, le_rfl⟩, rfl, rfl, rfl, by simp [Except.isOk, Except.toBool]⟩
  | ok ppid =>
      cases intOr event "uid" s.uid with
      | error x => exact ⟨⟨rfl, rfl, rfl, rfl, rfl, rfl, le_rfl⟩, rfl, rfl, rfl, by simp [Except.isOk, Except.toBool]⟩
      | ok uid => exact ⟨⟨rfl, rfl, rfl, rfl, rfl, rfl, le_rfl⟩, rfl, rfl, rfl, by simp [Except.isOk, Except.toBool]⟩

/-- A key that the state has seen changes nothing. -/
theorem noted_of_seen {r : Rule} {key : PyStr} {s : ExecutionState T F} (h : key ∈ s.seen r) :
    Noted p [(r, key)] s s := by
  have hmem : key ∈ (tally s).keys r := by
    simpa [tally] using h
  refine ⟨rfl, rfl, rfl, rfl, ?_, rfl, le_rfl⟩
  rw [Tally.addAll_singleton, Tally.add, if_pos hmem]

/-- The shape of the three branches: `add` puts the extended set of the rule back. -/
theorem observeKey_noted (env : Env T) (p : AcceptedPolicy T) (r : Rule) (key : PyStr)
    (evidence : Json F) (add : ExecutionState T F → List PyStr → ExecutionState T F)
    (s : ExecutionState T F) (reads : Nat) (hpid : ∀ l, (add s l).pid = s.pid)
    (hid : ∀ l, (add s l).correlationId = s.correlationId)
    (hstatus : ∀ l, (add s l).status = s.status)
    (hpre : ∀ l, (add s l).preExecutionScore = s.preExecutionScore)
    (hind : ∀ l, (add s l).runtimeIndicators = s.runtimeIndicators)
    (hocc : ∀ l, (add s l).ruleOccurrences = s.ruleOccurrences)
    (haction : ∀ l, (add s l).recommendedAction = s.recommendedAction)
    (hseen : ∀ l, (add s l).seen = Function.update s.seen r l) :
    Noted p [(r, key)] s (observeKey env p r key evidence (s.seen r) add s reads).1 ∧
      ((observeKey env p r key evidence (s.seen r) add s reads).1.recommendedAction =
          s.recommendedAction ∨
        Scored p s (observeKey env p r key evidence (s.seen r) add s reads).1) := by
  unfold observeKey
  split
  · next h => exact ⟨noted_of_seen h, .inl rfl⟩
  · next h =>
    exact applyRule_noted env evidence (hpid _) (hid _) (hstatus _) (hpre _) (hind _) (hocc _)
      (haction _) (hseen _) h reads

/-- The branch of an event and the closing `_recalculate`. -/
def observed (env : Env T) (p : AcceptedPolicy T) (event : Mapping F) (s : ExecutionState T F)
    (reads : Nat) : ExecutionState T F × Nat :=
  match kindOf event with
  | .fileWrite => observeWrite env p event s reads
  | .fileRename => observeRename env p event s reads
  | .networkConnect => observeConnect env p event s reads
  | _ => (s, reads)

theorem observed_noted (env : Env T) (p : AcceptedPolicy T) {event : Mapping F}
    (hkind : KeyEvent event) (s : ExecutionState T F) (reads : Nat) :
    Noted p (keyOf event).toList s (observed env p event s reads).1 ∧
      ((observed env p event s reads).1.recommendedAction = s.recommendedAction ∨
        Scored p s (observed env p event s reads).1) := by
  have hupdate : ∀ (r : Rule) (l : List PyStr) (s' : ExecutionState T F), s'.seen r = l →
      (∀ r', r' ≠ r → s'.seen r' = s.seen r') → s'.seen = Function.update s.seen r l := by
    intro r l s' hr hother
    funext r'
    by_cases h : r' = r
    · subst h
      rw [Function.update_self, hr]
    · rw [Function.update_of_ne h, hother r' h]
  rcases hkind with hkind | hkind | hkind
  · simp only [observed, keyOf, hkind, observeWrite]
    have hwrite : ∀ key : PyStr, _ := fun key =>
      observeKey_noted env p .distinctFileWrite key (.obj [(py "distinct_file_key", .str key)])
        (fun s seen => { s with distinctFiles := seen }) s reads (fun _ => rfl) (fun _ => rfl)
        (fun _ => rfl) (fun _ => rfl) (fun _ => rfl) (fun _ => rfl) (fun _ => rfl) fun l =>
          hupdate _ _ _ rfl fun r' hr' => by
            cases r' with
            | distinctFileWrite => exact absurd rfl hr'
            | _ => rfl
    cases lookup (py "distinct_file_key") event with
    | none => exact ⟨Noted.refl s, .inl rfl⟩
    | some v =>
        cases v with
        | null => exact ⟨Noted.refl s, .inl rfl⟩
        | _ => exact hwrite _
  · simp only [observed, keyOf, hkind, observeRename]
    refine observeKey_noted env p .fileRename _ _
      (fun s seen => { s with renameIdentifiers := seen }) s reads (fun _ => rfl) (fun _ => rfl)
      (fun _ => rfl) (fun _ => rfl) (fun _ => rfl) (fun _ => rfl) (fun _ => rfl) fun l => ?_
    refine hupdate _ _ _ rfl fun r' hr' => ?_
    cases r' with
    | fileRename => exact absurd rfl hr'
    | _ => rfl
  · simp only [observed, keyOf, hkind, observeConnect]
    refine observeKey_noted env p .outboundConnection _ _
      (fun s seen => { s with outboundConnections := seen }) s reads (fun _ => rfl) (fun _ => rfl)
      (fun _ => rfl) (fun _ => rfl) (fun _ => rfl) (fun _ => rfl) (fun _ => rfl) fun l => ?_
    refine hupdate _ _ _ rfl fun r' hr' => ?_
    cases r' with
    | outboundConnection => exact absurd rfl hr'
    | _ => rfl

theorem ingestKind_observed (env : Env T) (p : AcceptedPolicy T) {event : Mapping F}
    (hkind : KeyEvent event) (now : T) (s : ExecutionState T F) (e : Engine T F) :
    ingestKind env p event now s e =
      finishIngest env p event (observed env p event s e.clockReads).1
        (observed env p event s e.clockReads).2 e := by
  unfold ingestKind observed
  rcases hkind with hkind | hkind | hkind <;> rw [hkind]

/-- What a list of events of the process has made of its state. -/
structure Absorbed (p : AcceptedPolicy T) (events : List (Mapping F)) (s s' : ExecutionState T F) :
    Prop where
  noted : Noted p (events.filterMap recorded) s s'
  scored : (∃ event ∈ events, converts event = true) → Scored p s s'
  kept : (∀ event ∈ events, converts event = false) → s'.runtimeScore = s.runtimeScore ∧
    s'.combinedScore = s.combinedScore ∧ s'.recommendedAction = s.recommendedAction

theorem Absorbed.refl (s : ExecutionState T F) : Absorbed p [] s s :=
  ⟨Noted.refl s, fun ⟨_, h, _⟩ => absurd h List.not_mem_nil, fun _ => ⟨rfl, rfl, rfl⟩⟩

/-- The weight of the indicators, from the counts. -/
theorem Noted.weight_eq {xs : List (Rule × PyStr)} {s s' : ExecutionState T F}
    (h : Noted p xs s s') : indicatorWeight s' =
      indicatorWeight s + earned p ((tally s).addAll (cap p) xs).count - earned p s.occurrences := by
  have hoffset := h.offset_eq
  have hcount : s'.occurrences = ((tally s).addAll (cap p) xs).count :=
    congrArg Tally.count h.tallied
  rw [offset, offset, hcount] at hoffset
  omega

theorem recorded_eq_none {event : Mapping F} (h : converts event = false) :
    recorded event = none := by
  rw [recorded, h]
  rfl

theorem filterMap_recorded_eq_nil {events : List (Mapping F)}
    (h : ∀ event ∈ events, converts event = false) : events.filterMap recorded = [] :=
  List.filterMap_eq_nil_iff.2 fun event hevent => recorded_eq_none (h event hevent)

theorem Absorbed.trans {events events' : List (Mapping F)} {s s' s'' : ExecutionState T F}
    (h : Absorbed p events s s') (h' : Absorbed p events' s' s'') :
    Absorbed p (events ++ events') s s'' := by
  have hnoted : Noted p ((events ++ events').filterMap recorded) s s'' := by
    rw [List.filterMap_append]
    exact h.noted.trans h'.noted
  by_cases hlast : ∃ event ∈ events', converts event = true
  · have hscored := h'.scored hlast
    refine ⟨hnoted, fun _ => ?_, fun hall => ?_⟩
    · by_cases hfirst : ∃ event ∈ events, converts event = true
      · exact (h.scored hfirst).trans h'.noted hscored
      · have hkept := h.kept fun event hevent =>
          Bool.not_eq_true _ ▸ fun hconv => hfirst ⟨event, hevent, hconv⟩
        refine ⟨hscored.runtime, hscored.combined, ?_⟩
        rw [hscored.action, hkept.2.2]
    · obtain ⟨event, hevent, hconv⟩ := hlast
      have hnot := hall event (List.mem_append_right _ hevent)
      rw [hconv] at hnot
      cases hnot
  · have hnone : ∀ event ∈ events', converts event = false := fun event hevent =>
      Bool.not_eq_true _ ▸ fun hconv => hlast ⟨event, hevent, hconv⟩
    obtain ⟨hruntime, hcombined, haction⟩ := h'.kept hnone
    have hnoted' := h'.noted
    rw [filterMap_recorded_eq_nil hnone] at hnoted'
    have hweight : indicatorWeight s'' = indicatorWeight s' := by
      rw [hnoted'.weight_eq, Tally.addAll_nil, tally]
      ring
    refine ⟨hnoted, ?_, fun hall => ?_⟩
    · rintro ⟨event, hevent, hconv⟩
      have hfirst : ∃ event ∈ events, converts event = true := by
        rcases List.mem_append.1 hevent with hevent | hevent
        · exact ⟨event, hevent, hconv⟩
        · exact absurd ⟨event, hevent, hconv⟩ hlast
      have hscored := h.scored hfirst
      refine ⟨?_, ?_, ?_⟩
      · rw [hruntime, hscored.runtime, hweight]
      · rw [hcombined, hscored.combined, hnoted'.preScore, hruntime]
      · have hfor : actionFor p s'' = actionFor p s' := by
          simp only [actionFor, hnoted'.status, hcombined]
        rw [haction, hscored.action, hfor]
    · obtain ⟨hruntime₀, hcombined₀, haction₀⟩ :=
        h.kept fun event hevent => hall event (List.mem_append_left _ hevent)
      exact ⟨hruntime.trans hruntime₀, hcombined.trans hcombined₀, haction.trans haction₀⟩

/-- One event of a process with a live state. -/
theorem ingest_absorbs (env : Env T) (p : AcceptedPolicy T) {event : Mapping F} {pid : Int}
    (hpid : pidOf event = .ok pid) (hpos : 0 < pid) (hkind : KeyEvent event) {e : Engine T F}
    (hk : Keyed e) {s : ExecutionState T F}
    (hlive : (expire env p none e).2.states.get? pid = some s) :
    ∃ s', (ingestRuntimeEvent env p event e).2.states.get? pid = some s' ∧
      Absorbed p [event] s s' := by
  have hkey : s.pid = pid := (expire_frame env p pid none hk).keyed pid s hlive
  have hrun : runtimeState env p event (expire env p none e).2 =
      (.ok (some s), (expire env p none e).2) := by
    simp only [runtimeState, hpid, if_neg (not_le.2 hpos), hlive]
  simp only [ingestRuntimeEvent, hrun]
  generalize (expire env p none e).2 = e₁
  obtain ⟨hnoted, hruntime, hcombined, haction, hok⟩ :=
    touch_noted p event (env.clock e₁.clockReads) s
  cases htouch : touch event (env.clock e₁.clockReads) s with
  | mk result s₁ =>
      rw [htouch] at hnoted hruntime hcombined haction hok
      dsimp only at hnoted hruntime hcombined haction hok
      have hkey₁ : s₁.pid = pid := hnoted.pid.trans hkey
      cases result with
      | error x =>
          have hconv : converts event = false := by
            rw [← Bool.not_eq_true, ← hok]
            intro hreturned
            cases hreturned
          refine ⟨s₁, ?_, ?_⟩
          · rw [← hkey₁]
            exact get?_put_self _ _
          · refine ⟨?_, ?_, fun _ => ⟨hruntime, hcombined, haction⟩⟩
            · rw [List.filterMap_cons_none (recorded_eq_none hconv)]
              exact hnoted
            · rintro ⟨event', hmem, hconv'⟩
              rw [List.mem_singleton.1 hmem, hconv] at hconv'
              cases hconv'
      | ok u =>
          have hconv : converts event = true := hok.1 rfl
          dsimp only
          rw [ingestKind_observed env p hkind]
          obtain ⟨hobserved, hrecommended⟩ := observed_noted env p hkind s₁
            (e₁.readClock.put s₁).clockReads
          generalize observed env p event s₁ (e₁.readClock.put s₁).clockReads = s₂ at *
          obtain ⟨hlast, hscored⟩ := recalculate_noted env p (eventReason event) s₂.1 s₂.2
          have hkey₂ : s₂.1.pid = pid := hobserved.pid.trans hkey₁
          refine ⟨_, by rw [← hkey₂]; exact finishIngest_live .., ?_, fun _ => ?_, ?_⟩
          · have hrecorded : [event].filterMap recorded = (keyOf event).toList := by
              simp only [List.filterMap_cons, List.filterMap_nil, recorded, hconv, if_true]
              cases keyOf event <;> rfl
            rw [hrecorded]
            simpa using (hnoted.trans hobserved).trans hlast
          · refine ⟨hscored.runtime, hscored.combined, ?_⟩
            rcases hrecommended with hsame | hescalated
            · rw [hscored.action, hsame, haction]
            · rw [(hescalated.trans hlast hscored).action, haction]
          · intro hnone
            rw [hnone event (List.mem_singleton_self _)] at hconv
            cases hconv

/-! ## Runs -/

/-- The events of process `pid` among the calls, in order. -/
def eventsOf (pid : Int) (calls : List (Call T F)) : List (Mapping F) :=
  calls.filterMap fun c =>
    match c with
    | .ingestRuntimeEvent event =>
        match pidOf event with
        | .ok n => if n = pid then some event else none
        | .error _ => none
    | _ => none

/-- The state of `pid` is not evicted and does not expire, from call to call and at the end. -/
def StaysLive (env : Env T) (p : AcceptedPolicy T) (pid : Int) :
    List (Call T F) → Engine T F → Prop
  | [], e => e.states.get? pid ≠ none
  | c :: calls, e => Survives env p pid e ∧ StaysLive env p pid calls (perform env p c e).2

/-- A run that meets process `pid` with these events and nothing else, while its state stays
    live. -/
structure KeyRun (env : Env T) (p : AcceptedPolicy T) (pid : Int) (calls : List (Call T F))
    (e : Engine T F) (events : List (Mapping F)) : Prop where
  only : ∀ c ∈ calls, OtherProcess pid c ∨
    ∃ event, c = .ingestRuntimeEvent event ∧ pidOf event = .ok pid ∧ KeyEvent event
  events : eventsOf pid calls = events
  live : StaysLive env p pid calls e

theorem eventsOf_cons_other {pid : Int} {c : Call T F} (hc : OtherProcess pid c)
    (calls : List (Call T F)) : eventsOf pid (c :: calls) = eventsOf pid calls := by
  rw [eventsOf, List.filterMap_cons_none, ← eventsOf]
  cases c with
  | registerPreExecution record => rfl
  | ingestRuntimeEvent event =>
      have hne : pidOf event ≠ .ok pid := hc
      dsimp only
      cases hpid : pidOf event with
      | error x => rfl
      | ok n =>
          rw [hpid] at hne
          exact if_neg fun h => hne (congrArg Except.ok h)
  | expire now => rfl
  | recordActionResult pid' id result => rfl

theorem eventsOf_cons_event {pid : Int} {event : Mapping F} (hpid : pidOf event = .ok pid)
    (calls : List (Call T F)) :
    eventsOf pid (.ingestRuntimeEvent event :: calls) = event :: eventsOf pid calls := by
  rw [eventsOf, List.filterMap_cons_some (b := event), ← eventsOf]
  dsimp only
  rw [hpid]
  exact if_pos rfl

/-- A live state that survives is there, as it was, when the next call starts. -/
theorem survives_get {pid : Int} {e : Engine T F} (hk : Keyed e) {s : ExecutionState T F}
    (hs : e.states.get? pid = some s) (hsurvives : Survives env p pid e) :
    (expire env p none e).2.states.get? pid = some s := by
  rcases (expire_frame env p pid none hk).entry with h | h
  · rw [h, hs]
  · exact absurd h hsurvives

/-- A state that is live after a call for other processes is the one that was live before. -/
theorem perform_same {pid : Int} {c : Call T F} (hc : OtherProcess pid c) {e : Engine T F}
    (hk : Keyed e) {s : ExecutionState T F} (hs : e.states.get? pid = some s)
    (hlive : (perform env p c e).2.states.get? pid ≠ none) :
    (perform env p c e).2.states.get? pid = some s := by
  rcases (perform_frame env p hc hk).entry with h | h
  · rw [h, hs]
  · exact absurd h hlive

theorem StaysLive.head {pid : Int} {calls : List (Call T F)} {e : Engine T F} (hk : Keyed e)
    (h : StaysLive env p pid calls e) : e.states.get? pid ≠ none := by
  cases calls with
  | nil => exact h
  | cons c calls => exact fun hnone => h.1 (expire_none_of_none env p hk hnone)

/-- Over a run, the state absorbs the events of its process: one call at a time. -/
theorem run_absorbs (env : Env T) (p : AcceptedPolicy T) {pid : Int} (hpos : 0 < pid)
    {calls : List (Call T F)} (e : Engine T F) (hk : Keyed e) {s : ExecutionState T F}
    (hs : e.states.get? pid = some s) {events : List (Mapping F)}
    (h : KeyRun env p pid calls e events) :
    ∃ s', (runCalls env p calls e).states.get? pid = some s' ∧ Absorbed p events s s' := by
  induction calls generalizing e s events with
  | nil =>
      have hevents : [] = events := h.events
      exact ⟨s, hs, hevents ▸ Absorbed.refl s⟩
  | cons c calls ih =>
      obtain ⟨hsurvives, hrest⟩ := h.live
      have honly : ∀ c' ∈ calls, _ := fun c' hc' => h.only c' (List.mem_cons_of_mem _ hc')
      have hk' : Keyed (perform env p c e).2 := runCalls_keyed env p [c] hk
      have hlive := StaysLive.head hk' hrest
      have hevents := h.events
      rcases h.only c (List.mem_cons_self ..) with hc | ⟨event, rfl, hpid, hkind⟩
      · rw [eventsOf_cons_other hc] at hevents
        exact ih _ hk' (perform_same hc hk hs hlive) ⟨honly, hevents, hrest⟩
      · rw [eventsOf_cons_event hpid] at hevents
        obtain ⟨s₁, hs₁, habsorbed⟩ :=
          ingest_absorbs env p hpid hpos hkind hk (survives_get hk hs hsurvives)
        obtain ⟨s', hs', habsorbed'⟩ := ih _ hk' hs₁ ⟨honly, rfl, hrest⟩
        exact ⟨s', hs', hevents ▸ habsorbed.trans habsorbed'⟩

/-- No state has a process id that `_pid` rejects. -/
theorem live_pid_pos (env : Env T) (p : AcceptedPolicy T) {pid : Int} (hpid : pid ≤ 0)
    (calls : List (Call T F)) {e : Engine T F} (hk : Keyed e) (hnone : e.states.get? pid = none) :
    (runCalls env p calls e).states.get? pid = none := by
  induction calls generalizing e with
  | nil => exact hnone
  | cons c calls ih =>
      refine ih (runCalls_keyed env p [c] hk) ?_
      by_cases hc : OtherProcess pid c
      · exact (perform_frame env p hc hk).none hnone
      · have hexpired := expire_none_of_none env p hk hnone
        cases c with
        | registerPreExecution record =>
            have hrecord : pidOf record = .ok pid := not_not.1 hc
            simp only [perform, registerPreExecution, hrecord, if_pos hpid]
            exact hexpired
        | ingestRuntimeEvent event =>
            have hevent : pidOf event = .ok pid := not_not.1 hc
            simp only [perform, ingestRuntimeEvent, runtimeState, hevent, if_pos hpid]
            exact hexpired
        | expire now => exact absurd trivial hc
        | recordActionResult pid' id result =>
            have hsame : pid' = pid := not_not.1 hc
            subst hsame
            simp only [perform, recordActionResult, hnone]

/-! ## Order independence -/

/-- The two states agree on everything the events decide. -/
structure SameScore (s s' : ExecutionState T F) : Prop where
  runtime : s.runtimeScore = s'.runtimeScore
  combined : s.combinedScore = s'.combinedScore
  action : s.recommendedAction = s'.recommendedAction
  occurrences : ∀ r, s.occurrences r = s'.occurrences r
  seen : ∀ r k, k ∈ s.seen r ↔ k ∈ s'.seen r

/-- A state that no rule has scored and no key was added to. -/
structure Unscored (s : ExecutionState T F) : Prop where
  runtime : s.runtimeScore = 0
  indicators : s.runtimeIndicators = []
  occurrences : ∀ r, s.occurrences r = 0
  seen : ∀ r, s.seen r = []

/-- Every state is created unscored; a child exec is scored by a call of its own. -/
theorem newState_unscored (env : Env T) (p : AcceptedPolicy T) (a : NewState F) (e : Engine T F) :
    Unscored (newState env p a e).1 := by
  obtain ⟨ts, h⟩ := recalculate_fst env p (py "STATE_CREATED")
    (a.build (env.idFactory (evict p e).idsIssued) ((evict p e).nextGeneration a.pid)
      (env.clock (evict p e).clockReads)) ((evict p e).clockReads + 1)
  have hstate : (newState env p a e).1 = _ := h
  rw [hstate]
  refine ⟨?_, rfl, fun r => rfl, fun r => by cases r <;> rfl⟩
  simp only [rescored, NewState.build, p.facts.scoreMaximum]
  rfl

/-- The rules that writes, renames and connections score. -/
def keyRules : List Rule := [.distinctFileWrite, .fileRename, .outboundConnection]

/-- The keys of a list of events, by rule. -/
def distinctKeys (events : List (Mapping F)) (r : Rule) : Finset PyStr :=
  keysOf (events.filterMap recorded) r

theorem Absorbed.same_of_perm {events events' : List (Mapping F)} {s s₁ s₂ : ExecutionState T F}
    (h₁ : Absorbed p events s s₁) (h₂ : Absorbed p events' s s₂) (hperm : events.Perm events') :
    SameScore s₁ s₂ := by
  have htally : Correlation.tally s₁ = Correlation.tally s₂ := by
    rw [h₁.noted.tallied, h₂.noted.tallied, Tally.addAll_perm _ _ (hperm.filterMap recorded)]
  have hweight : indicatorWeight s₁ = indicatorWeight s₂ := by
    rw [h₁.noted.weight_eq, h₂.noted.weight_eq, Tally.addAll_perm _ _ (hperm.filterMap recorded)]
  have hscores : s₁.runtimeScore = s₂.runtimeScore ∧ s₁.combinedScore = s₂.combinedScore ∧
      s₁.recommendedAction = s₂.recommendedAction := by
    by_cases hany : ∃ event ∈ events, converts event = true
    · have hany' : ∃ event ∈ events', converts event = true := by
        obtain ⟨event, hevent, hconv⟩ := hany
        exact ⟨event, hperm.mem_iff.1 hevent, hconv⟩
      have hs₁ := h₁.scored hany
      have hs₂ := h₂.scored hany'
      have hruntime : s₁.runtimeScore = s₂.runtimeScore := by
        rw [hs₁.runtime, hs₂.runtime, hweight]
      have hcombined : s₁.combinedScore = s₂.combinedScore := by
        rw [hs₁.combined, hs₂.combined, hruntime, h₁.noted.preScore, h₂.noted.preScore]
      refine ⟨hruntime, hcombined, ?_⟩
      rw [hs₁.action, hs₂.action, actionFor, actionFor, h₁.noted.status, h₂.noted.status,
        hcombined]
    · have hnone : ∀ event ∈ events, converts event = false := fun event hevent =>
        Bool.not_eq_true _ ▸ fun hconv => hany ⟨event, hevent, hconv⟩
      have hnone' : ∀ event ∈ events', converts event = false := fun event hevent =>
        hnone event (hperm.mem_iff.2 hevent)
      obtain ⟨hruntime, hcombined, haction⟩ := h₁.kept hnone
      obtain ⟨hruntime', hcombined', haction'⟩ := h₂.kept hnone'
      exact ⟨hruntime.trans hruntime'.symm, hcombined.trans hcombined'.symm,
        haction.trans haction'.symm⟩
  refine ⟨hscores.1, hscores.2.1, hscores.2.2, fun r => ?_, fun r k => ?_⟩
  · exact congrFun (congrArg Tally.count htally) r
  · have hkeys := congrFun (congrArg Tally.keys htally) r
    rw [← List.mem_toFinset, ← List.mem_toFinset]
    exact iff_of_eq (congrArg (k ∈ ·) hkeys)

theorem keyOf_rule {event : Mapping F} {x : Rule × PyStr} (h : keyOf event = some x) :
    x.1 ∈ keyRules := by
  unfold keyOf at h
  split at h
  · split at h
    · cases h
    · cases h
    · cases h
      exact .head _
  · cases h
    exact .tail _ (.head _)
  · cases h
    exact .tail _ (.tail _ (.head _))
  · cases h

theorem distinctKeys_eq_empty (events : List (Mapping F)) {r : Rule} (hr : r ∉ keyRules) :
    distinctKeys events r = ∅ := by
  refine Finset.eq_empty_of_forall_notMem fun k hk => ?_
  rw [distinctKeys, mem_keysOf, List.mem_filterMap] at hk
  obtain ⟨event, -, hrecorded⟩ := hk
  unfold recorded at hrecorded
  split at hrecorded
  · exact hr (keyOf_rule hrecorded)
  · cases hrecorded

/-- What the keys of a list of events are worth: for each rule its weight for every distinct key up
    to its cap. -/
def keyWorth (p : AcceptedPolicy T) (events : List (Mapping F)) : Int :=
  (keyRules.map fun r => (p.spec r).weight *
    min (p.spec r).maxOccurrences (distinctKeys events r).card).sum

/-- The state has not seen a key and no key rule has scored it. -/
def KeyFresh (s : ExecutionState T F) : Prop :=
  ∀ r ∈ keyRules, s.occurrences r = 0 ∧ s.seen r = []

/-- The closed form, for a state whose other rules may have scored. -/
theorem Absorbed.weight_of_keyFresh {events : List (Mapping F)} {s s' : ExecutionState T F}
    (h : Absorbed p events s s') (hs : KeyFresh s) :
    indicatorWeight s' = indicatorWeight s + keyWorth p events := by
  have hkey : ∀ r ∈ keyRules,
      (((Correlation.tally s).addAll (cap p) (events.filterMap recorded)).count r : Int) =
        min (p.spec r).maxOccurrences (distinctKeys events r).card := by
    intro r hr
    obtain ⟨hcount, hseen⟩ := hs r hr
    have hkeys : (Correlation.tally s).keys r = ∅ := by
      show (s.seen r).toFinset = ∅
      rw [hseen]
      rfl
    have hpositive := (p.spec_facts r).2.2
    rw [Tally.count_addAll_of_empty (cap p) hcount hkeys, cap, distinctKeys]
    push_cast
    omega
  have hother : ∀ r ∉ keyRules,
      ((Correlation.tally s).addAll (cap p) (events.filterMap recorded)).count r =
        s.occurrences r := by
    intro r hr
    have hempty : keysOf (events.filterMap recorded) r = ∅ := distinctKeys_eq_empty events hr
    rw [Tally.count_addAll, hempty, Finset.empty_sdiff, Finset.card_empty]
    show max (s.occurrences r) (min (cap p r) (s.occurrences r + 0)) = s.occurrences r
    omega
  have hzero : ∀ r ∈ keyRules, s.occurrences r = 0 := fun r hr => (hs r hr).1
  rw [h.noted.weight_eq]
  simp only [earned, Rule.all, keyWorth, keyRules, List.map_cons, List.map_nil, List.sum_cons,
    List.sum_nil]
  rw [hkey .distinctFileWrite (by decide), hkey .fileRename (by decide),
    hkey .outboundConnection (by decide), hother .childProcessExec (by decide),
    hother .executableIdentifierMismatch (by decide), hzero .distinctFileWrite (by decide),
    hzero .fileRename (by decide), hzero .outboundConnection (by decide)]
  push_cast
  ring

/-- From an unscored state the runtime score is what the keys are worth. -/
theorem Absorbed.runtime_of_unscored {events : List (Mapping F)} {s s' : ExecutionState T F}
    (h : Absorbed p events s s') (hs : Unscored s) :
    s'.runtimeScore = min 100 (keyWorth p events) := by
  have hstart : indicatorWeight s = 0 := by
    rw [indicatorWeight, hs.indicators]
    rfl
  have hweight := h.weight_of_keyFresh fun r _ => ⟨hs.occurrences r, hs.seen r⟩
  rw [hstart, zero_add] at hweight
  by_cases hany : ∃ event ∈ events, converts event = true
  · rw [(h.scored hany).runtime, hweight]
  · have hnone : ∀ event ∈ events, converts event = false := fun event hevent =>
      Bool.not_eq_true _ ▸ fun hconv => hany ⟨event, hevent, hconv⟩
    have hnoted := h.noted
    rw [filterMap_recorded_eq_nil hnone] at hnoted
    rw [← hweight, (h.kept hnone).1, hs.runtime, hnoted.weight_eq, Tally.addAll_nil, hstart,
      Correlation.tally]
    simp

/-- **Runtime scores do not depend on the order of events.** From a live state of a reachable
    engine, two runs, each with its own environment and with any calls for other processes in
    between, that meet the process with the same writes, renames and connections in any two orders,
    and keep its state live, leave states that agree on the scores, the action, the counts and the
    sets of keys. If the state was unscored, its runtime score is the sum over the three rules of
    the weight times the number of distinct keys up to the cap, and 100 at most. -/
theorem runtime_score_order_independent (env₀ env₁ env₂ : Env T) (before : List (Call T F))
    {e : Engine T F} (he : e = runCalls env₀ p before {}) {pid : Int} {s : ExecutionState T F}
    (hs : e.states.get? pid = some s) {calls₁ calls₂ : List (Call T F)}
    {events₁ events₂ : List (Mapping F)} (h₁ : KeyRun env₁ p pid calls₁ e events₁)
    (h₂ : KeyRun env₂ p pid calls₂ e events₂) (hperm : events₁.Perm events₂) :
    ∃ s₁ s₂, (runCalls env₁ p calls₁ e).states.get? pid = some s₁ ∧
      (runCalls env₂ p calls₂ e).states.get? pid = some s₂ ∧ SameScore s₁ s₂ ∧
      (Unscored s → s₁.runtimeScore = min 100 (keyWorth p events₁)) := by
  have hempty : Keyed ({} : Engine T F) := fun pid s h => absurd h (by simp)
  have hk : Keyed e := he ▸ runCalls_keyed env₀ p before hempty
  have hpos : 0 < pid := by
    by_contra hpid
    have hnone := live_pid_pos env₀ p (not_lt.1 hpid) before hempty (Dict.get?_empty pid)
    rw [← he, hs] at hnone
    cases hnone
  obtain ⟨s₁, hs₁, habsorbed₁⟩ := run_absorbs env₁ p hpos e hk hs h₁
  obtain ⟨s₂, hs₂, habsorbed₂⟩ := run_absorbs env₂ p hpos e hk hs h₂
  exact ⟨s₁, s₂, hs₁, hs₂, habsorbed₁.same_of_perm habsorbed₂ hperm,
    habsorbed₁.runtime_of_unscored⟩

/-! ### Two events in both orders -/

def connectEvent : Mapping SampleFloat :=
  [(py "event_type", .str (py "NETWORK_CONNECT")), (py "pid", .int 7),
    (py "destination_address", .str (py "10.0.0.1")), (py "destination_port", .int 443)]

def writeEvent : Mapping SampleFloat :=
  [(py "event_type", .str (py "FILE_WRITE")), (py "pid", .int 7),
    (py "distinct_file_key", .str (py "1:2"))]

def renameEvent : Mapping SampleFloat :=
  [(py "event_type", .str (py "FILE_RENAME")), (py "pid", .int 7)]

/-- An event of another process. -/
def strangerEvent : Mapping SampleFloat :=
  [(py "event_type", .str (py "FILE_RENAME")), (py "pid", .int 8)]

/-- The engine after process 7 has connected once. -/
def connected (p : AcceptedPolicy ℤ) : Engine ℤ SampleFloat :=
  runCalls stillEnv p [.ingestRuntimeEvent connectEvent] {}

/-- Two events of process 7 with one of process 8 in between. -/
def aroundStranger (first last : Mapping SampleFloat) : List (Call ℤ SampleFloat) :=
  [.ingestRuntimeEvent first, .ingestRuntimeEvent strangerEvent, .ingestRuntimeEvent last]

theorem aroundStranger_only {first last : Mapping SampleFloat}
    (hfirst : pidOf first = .ok 7 ∧ KeyEvent first) (hlast : pidOf last = .ok 7 ∧ KeyEvent last) :
    ∀ c ∈ aroundStranger first last, OtherProcess 7 c ∨
      ∃ event, c = .ingestRuntimeEvent event ∧ pidOf event = .ok 7 ∧ KeyEvent event := by
  intro c hc
  simp only [aroundStranger, List.mem_cons, List.not_mem_nil, or_false] at hc
  rcases hc with rfl | rfl | rfl
  · exact .inr ⟨_, rfl, hfirst⟩
  · exact .inl (show pidOf strangerEvent ≠ .ok 7 by decide)
  · exact .inr ⟨_, rfl, hlast⟩

theorem writeEvent_key : pidOf writeEvent = .ok 7 ∧ KeyEvent writeEvent := ⟨rfl, .inl rfl⟩

theorem renameEvent_key : pidOf renameEvent = .ok 7 ∧ KeyEvent renameEvent := ⟨rfl, .inr (.inl rfl)⟩

theorem both_orders_of_two_events : ∃ s s₁ s₂,
    (connected acceptedDefaultPolicy).states.get? 7 = some s ∧
    (runCalls stillEnv acceptedDefaultPolicy (aroundStranger writeEvent renameEvent)
      (connected acceptedDefaultPolicy)).states.get? 7 = some s₁ ∧
    (runCalls stillEnv acceptedDefaultPolicy (aroundStranger renameEvent writeEvent)
      (connected acceptedDefaultPolicy)).states.get? 7 = some s₂ ∧ SameScore s₁ s₂ := by
  obtain ⟨s, hs⟩ : ∃ s, (connected acceptedDefaultPolicy).states.get? 7 = some s :=
    Option.isSome_iff_exists.1 (by decide)
  have hne : ∀ {α : Type} {o : Option α}, o.isSome = true → o ≠ none := by
    rintro α o h rfl
    cases h
  have h₁ : KeyRun stillEnv acceptedDefaultPolicy 7 (aroundStranger writeEvent renameEvent)
      (connected acceptedDefaultPolicy) [writeEvent, renameEvent] :=
    ⟨aroundStranger_only writeEvent_key renameEvent_key, rfl,
      ⟨hne (by decide), hne (by decide), hne (by decide), hne (by decide)⟩⟩
  have h₂ : KeyRun stillEnv acceptedDefaultPolicy 7 (aroundStranger renameEvent writeEvent)
      (connected acceptedDefaultPolicy) [renameEvent, writeEvent] :=
    ⟨aroundStranger_only renameEvent_key writeEvent_key, rfl,
      ⟨hne (by decide), hne (by decide), hne (by decide), hne (by decide)⟩⟩
  obtain ⟨s₁, s₂, hs₁, hs₂, hsame, -⟩ := runtime_score_order_independent stillEnv stillEnv stillEnv
    [.ingestRuntimeEvent connectEvent] rfl hs h₁ h₂ (List.Perm.swap ..)
  exact ⟨s, s₁, s₂, hs, hs₁, hs₂, hsame⟩

/-- The default policy with room for one state. -/
def crowdedPolicy : AcceptedPolicy ℤ := ⟨{ defaultPolicy with maxStates := 1 }, by rfl⟩

/-- With room for one state, the event of process 8 evicts the state of process 7: what came before
    it is lost, so the orders differ, although no time passes and nothing expires. -/
theorem eviction_makes_order_matter :
    (∀ c ∈ aroundStranger writeEvent renameEvent ++ aroundStranger renameEvent writeEvent,
      OtherProcess 7 c ∨
        ∃ event, c = .ingestRuntimeEvent event ∧ pidOf event = .ok 7 ∧ KeyEvent event) ∧
    (eventsOf 7 (aroundStranger writeEvent renameEvent)).Perm
      (eventsOf 7 (aroundStranger renameEvent writeEvent)) ∧
    (∀ i j, stillEnv.clock j - stillEnv.clock i ≤ crowdedPolicy.toPolicy.stateTtlSeconds) ∧
    ((connected crowdedPolicy).states.get? 7).map (·.status) = some .active ∧
    ((runCalls stillEnv crowdedPolicy (aroundStranger writeEvent renameEvent)
      (connected crowdedPolicy)).states.get? 7).map (·.runtimeScore) = some 15 ∧
    ((runCalls stillEnv crowdedPolicy (aroundStranger renameEvent writeEvent)
      (connected crowdedPolicy)).states.get? 7).map (·.runtimeScore) = some 8 := by
  refine ⟨?_, List.Perm.swap .., ?_, by decide, by decide, by decide⟩
  · intro c hc
    rcases List.mem_append.1 hc with hc | hc
    · exact aroundStranger_only writeEvent_key renameEvent_key c hc
    · exact aroundStranger_only renameEvent_key writeEvent_key c hc
  · intro i j
    exact (by decide : (0 : ℤ) - 0 ≤ 300)

end Elyra.Correlation
