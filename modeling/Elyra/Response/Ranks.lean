import Elyra.Response.Engine

set_option autoImplicit false
set_option linter.unusedSectionVars false

/-! # Concurrent responses

Both consumer threads of the daemon call `execute_recommendation`. A `Pool` is the table of executed
ranks and any number of calls, each at one of the places between the atomic parts of the method; a
`Turn` lets one call go on by one part.

The second lock region writes the maximum of the call's rank and of the rank read in the first one,
not of the rank the table holds by then. So the table loses a stronger rank, or one action succeeds
twice, exactly when a call is overtaken: another call with an equal or stronger action records its
success between the two lock regions of a call that succeeds later (`ranks_hold_iff`). -/

namespace Elyra.Response

open Elyra.Python Elyra.Correlation

variable {F : Type}

/-- How far a call has come. -/
inductive Phase (F : Type) where
  | waiting
  | acting (a : Action) (previous : Int)
  | deciding (a : Action) (previous : Int) (result : ActionResult F)
  | finished (result : ActionResult F)
  | raised (exc : Exc)

structure Call (F : Type) where
  state : Mapping F
  phase : Phase F

/-- The call that moves, and what the world gives it if it needs something. -/
structure Turn (F : Type) where
  call : Nat
  stamp : Stamp F
  outcome : Outcome F

structure Pool (F : Type) where
  ranks : Ranks
  calls : List (Call F)

variable [FloatNum F]

/-- The next atomic part of a call. -/
def Call.advance (automaticRuntimeActions : Bool) (t : Turn F) (c : Call F) (ranks : Ranks) :
    Call F × Ranks :=
  match c.phase with
  | .waiting =>
      match enter c.state ranks with
      | .acting a previous => ({ c with phase := .acting a previous }, ranks)
      | .answered report =>
          match result t.stamp c.state report with
          | .ok r => ({ c with phase := .finished r }, ranks)
          | .error x => ({ c with phase := .raised x.toExc }, ranks)
  | .acting a previous =>
      match act automaticRuntimeActions c.state a t.outcome with
      | .error exc => ({ c with phase := .raised exc }, ranks)
      | .ok report =>
          match result t.stamp c.state report with
          | .ok r => ({ c with phase := .deciding a previous r }, ranks)
          | .error x => ({ c with phase := .raised x.toExc }, ranks)
  | .deciding a previous r =>
      ({ c with phase := .finished r }, commit c.state a previous r.status ranks)
  | .finished _ => (c, ranks)
  | .raised _ => (c, ranks)

def Pool.step (automaticRuntimeActions : Bool) (p : Pool F) (t : Turn F) : Pool F :=
  match p.calls[t.call]? with
  | none => p
  | some c =>
      let moved := c.advance automaticRuntimeActions t p.ranks
      { ranks := moved.2, calls := p.calls.set t.call moved.1 }

/-- A new response engine, and one call for each state. -/
def Pool.start (states : List (Mapping F)) : Pool F where
  ranks := Dict.empty
  calls := states.map fun state => { state := state, phase := .waiting }

/-- The pool after a sequence of turns. -/
def afterTurns (automaticRuntimeActions : Bool) (states : List (Mapping F)) (ts : List (Turn F)) :
    Pool F :=
  ts.foldl (Pool.step automaticRuntimeActions) (Pool.start states)

/-! ## One turn -/

/-- The call is between its two lock regions. -/
inductive Phase.Underway (a : Action) (previous : Int) : Phase F → Prop
  | acting : Phase.Underway a previous (.acting a previous)
  | deciding (r : ActionResult F) : Phase.Underway a previous (.deciding a previous r)

/-- The call is about to record the success of its action. -/
def Phase.Recording (a : Action) (previous : Int) (ph : Phase F) : Prop :=
  ∃ r, ph = .deciding a previous r ∧ r.status = .succeeded

def Phase.Succeeded (ph : Phase F) : Prop := ∃ r, ph = .finished r ∧ r.status = .succeeded

/-- Everything an atomic part of a call can do. -/
inductive Moved (state : Mapping F) (ranks : Ranks) : Phase F → Phase F → Ranks → Prop
  | answered (r : ActionResult F) : r.status ≠ .succeeded →
      Moved state ranks .waiting (.finished r) ranks
  | checked (a : Action) : action state = some a →
      (correlationId state ≠ [] → ranks.of (correlationId state) < a.rank) →
      Moved state ranks .waiting (.acting a (ranks.of (correlationId state))) ranks
  | acted (a : Action) (previous : Int) (r : ActionResult F) :
      Moved state ranks (.acting a previous) (.deciding a previous r) ranks
  | committed (a : Action) (previous : Int) (r : ActionResult F) :
      Moved state ranks (.deciding a previous r) (.finished r)
        (commit state a previous r.status ranks)
  | raised (ph : Phase F) (exc : Exc) : ph = .waiting ∨ (∃ a previous, ph = .acting a previous) →
      Moved state ranks ph (.raised exc) ranks
  | stayed (ph : Phase F) : (∀ a previous, ¬ ph.Underway a previous) → Moved state ranks ph ph ranks

theorem result_status {stamp : Stamp F} {state : Mapping F} {report : Report F}
    {r : ActionResult F} (h : result stamp state report = .ok r) : r.status = report.status := by
  unfold result at h
  cases hscore : score state with
  | error x => rw [hscore] at h; cases h
  | ok n =>
      cases hpid : pid state with
      | error x => rw [hscore, hpid] at h; cases h
      | ok m =>
          rw [hscore, hpid] at h
          cases h
          rfl

/-- The first lock region answers with a refusal or a suppression, or lets a new rank through. -/
theorem enter_cases (state : Mapping F) (ranks : Ranks) :
    (∃ report, enter state ranks = .answered report ∧ report.status ≠ .succeeded) ∨
      ∃ a, action state = some a ∧
        (correlationId state ≠ [] → ranks.of (correlationId state) < a.rank) ∧
        enter state ranks = .acting a (ranks.of (correlationId state)) := by
  unfold enter
  cases ha : action state with
  | none => exact .inl ⟨_, rfl, by simp [unsupported]⟩
  | some a =>
      by_cases hdup : correlationId state ≠ [] ∧ a.rank ≤ ranks.of (correlationId state)
      · exact .inl ⟨_, if_pos hdup, by simp [suppressed]⟩
      · refine .inr ⟨a, rfl, ?_, if_neg hdup⟩
        intro hid
        exact not_le.1 fun hle => hdup ⟨hid, hle⟩

theorem Call.advance_state (auto : Bool) (t : Turn F) (c : Call F) (ranks : Ranks) :
    (c.advance auto t ranks).1.state = c.state := by
  unfold Call.advance
  split
  · split
    · rfl
    · split <;> rfl
  · split
    · rfl
    · split <;> rfl
  · rfl
  · rfl
  · rfl

theorem Call.advance_moved (auto : Bool) (t : Turn F) (c : Call F) (ranks : Ranks) :
    Moved c.state ranks c.phase (c.advance auto t ranks).1.phase (c.advance auto t ranks).2 := by
  unfold Call.advance
  cases hph : c.phase with
  | waiting =>
      rcases enter_cases c.state ranks with ⟨report, hanswer, hstatus⟩ | ⟨a, ha, hrank, hact⟩
      · simp only [hanswer]
        cases hr : result t.stamp c.state report with
        | ok r =>
            refine .answered r ?_
            rw [result_status hr]
            exact hstatus
        | error x => exact .raised .waiting _ (.inl rfl)
      · simp only [hact]
        exact .checked a ha hrank
  | acting a previous =>
      cases hact : act auto c.state a t.outcome with
      | error exc =>
          simp only [hact]
          exact .raised _ exc (.inr ⟨a, previous, rfl⟩)
      | ok report =>
          simp only [hact]
          cases hr : result t.stamp c.state report with
          | ok r => exact .acted a previous r
          | error x => exact .raised _ _ (.inr ⟨a, previous, rfl⟩)
  | deciding a previous r => exact .committed a previous r
  | finished r => simpa only [hph] using .stayed _ (by rintro a previous (_ | _))
  | raised exc => simpa only [hph] using .stayed _ (by rintro a previous (_ | _))

/-- A turn of a call that exists. -/
theorem Pool.step_of_call (auto : Bool) {p : Pool F} {t : Turn F} {c : Call F}
    (hc : p.calls[t.call]? = some c) :
    ∃ c', c'.state = c.state ∧ Moved c.state p.ranks c.phase c'.phase (p.step auto t).ranks ∧
      (p.step auto t).calls = p.calls.set t.call c' := by
  refine ⟨(c.advance auto t p.ranks).1, c.advance_state auto t p.ranks, ?_, ?_⟩
  · have hmoved := c.advance_moved auto t p.ranks
    simpa only [Pool.step, hc] using hmoved
  · simp only [Pool.step, hc]

theorem Pool.step_of_none (auto : Bool) {p : Pool F} {t : Turn F} (hc : p.calls[t.call]? = none) :
    p.step auto t = p := by
  simp only [Pool.step, hc]

/-- Where a call is after a turn: it has moved, or it is where it was. -/
theorem Pool.call_of_step (auto : Bool) {p : Pool F} {t : Turn F} {i : Nat} {c' : Call F}
    (hc' : (p.step auto t).calls[i]? = some c') :
    ∃ c, p.calls[i]? = some c ∧ c'.state = c.state ∧
      (i = t.call ∧ Moved c.state p.ranks c.phase c'.phase (p.step auto t).ranks ∨
        i ≠ t.call ∧ c' = c) := by
  cases hc : p.calls[t.call]? with
  | none =>
      rw [Pool.step_of_none auto hc] at hc'
      refine ⟨c', hc', rfl, .inr ⟨?_, rfl⟩⟩
      rintro rfl
      rw [hc] at hc'
      cases hc'
  | some c =>
      obtain ⟨d, hstate, hmoved, hcalls⟩ := Pool.step_of_call auto hc
      rw [hcalls] at hc'
      by_cases hi : i = t.call
      · subst hi
        rw [List.getElem?_set_self (List.getElem?_eq_some_iff.1 hc).1] at hc'
        cases hc'
        exact ⟨c, hc, hstate, .inl ⟨rfl, hmoved⟩⟩
      · rw [List.getElem?_set_ne (Ne.symm hi)] at hc'
        exact ⟨c', hc', rfl, .inr ⟨hi, rfl⟩⟩

/-- The table changes only when a call records its success, and then to that call's rank. -/
theorem Moved.ranks_cases {state : Mapping F} {ranks ranks' : Ranks} {ph ph' : Phase F}
    (h : Moved state ranks ph ph' ranks') :
    ranks' = ranks ∨ ∃ a previous, ph.Recording a previous ∧ ph'.Succeeded ∧
      correlationId state ≠ [] ∧ ranks' = ranks.set (correlationId state) (max previous a.rank) := by
  cases h with
  | committed a previous r =>
      by_cases hdone : correlationId state ≠ [] ∧ r.status = .succeeded
      · exact .inr ⟨a, previous, ⟨r, rfl, hdone.2⟩, ⟨r, rfl, hdone.2⟩, hdone.1, if_pos hdone⟩
      · exact .inl (if_neg hdone)
  | _ => exact .inl rfl

/-! ## Runs -/

theorem afterTurns_concat (auto : Bool) (states : List (Mapping F)) (ts : List (Turn F))
    (t : Turn F) :
    afterTurns auto states (ts ++ [t]) = (afterTurns auto states ts).step auto t := by
  rw [afterTurns, List.foldl_append]
  rfl

theorem Phase.Recording.underway {a : Action} {previous : Int} {ph : Phase F}
    (h : ph.Recording a previous) : ph.Underway a previous := by
  obtain ⟨r, rfl, -⟩ := h
  exact .deciding r

/-- A call between its lock regions was let through with a rank below that of its action. -/
def PoolInv (p : Pool F) : Prop :=
  ∀ (i : Nat) (c : Call F) (a : Action) (previous : Int), p.calls[i]? = some c →
    c.phase.Underway a previous →
      action c.state = some a ∧ (correlationId c.state ≠ [] → previous < a.rank)

theorem Pool.start_inv (states : List (Mapping F)) : PoolInv (Pool.start states) := by
  intro i c a previous hc hunder
  simp only [Pool.start, List.getElem?_map, Option.map_eq_some_iff] at hc
  obtain ⟨state, -, rfl⟩ := hc
  cases hunder

theorem Pool.step_inv (auto : Bool) {p : Pool F} (hinv : PoolInv p) (t : Turn F) :
    PoolInv (p.step auto t) := by
  intro i c' a previous hc' hunder
  obtain ⟨c, hc, hstate, ⟨-, hmoved⟩ | ⟨-, rfl⟩⟩ := Pool.call_of_step auto hc'
  · rw [hstate]
    generalize c'.phase = ph' at hmoved hunder
    generalize hph : c.phase = ph at hmoved
    generalize (p.step auto t).ranks = ranks' at hmoved
    cases hmoved with
    | checked a' ha hrank =>
        cases hunder
        exact ⟨ha, hrank⟩
    | acted a' previous' r =>
        cases hunder
        exact hinv i c a previous hc (by rw [hph]; exact .acting)
    | stayed ph hidle => exact absurd hunder (hidle a previous)
    | answered r hr => cases hunder
    | committed a' previous' r => cases hunder
    | raised ph exc hph => cases hunder
  · exact hinv i c' a previous hc hunder

theorem afterTurns_inv (auto : Bool) (states : List (Mapping F)) (ts : List (Turn F)) :
    PoolInv (afterTurns auto states ts) := by
  induction ts using List.reverseRecOn with
  | nil => exact Pool.start_inv states
  | append_singleton ts t ih =>
      rw [afterTurns_concat]
      exact Pool.step_inv auto ih t

/-- What a turn does to the rank of a correlation: nothing, or it is set to the rank of the action
    whose success the turn records. -/
theorem Pool.step_rank (auto : Bool) {p : Pool F} (hinv : PoolInv p) (t : Turn F) (id : PyStr) :
    (p.step auto t).ranks.of id = p.ranks.of id ∨
      ∃ c a previous, p.calls[t.call]? = some c ∧ c.phase.Recording a previous ∧
        correlationId c.state = id ∧ (p.step auto t).ranks.of id = a.rank := by
  cases hc : p.calls[t.call]? with
  | none =>
      rw [Pool.step_of_none auto hc]
      exact .inl rfl
  | some c =>
      obtain ⟨c', -, hmoved, -⟩ := Pool.step_of_call auto hc
      rcases hmoved.ranks_cases with hsame | ⟨a, previous, hrec, -, hne, hset⟩
      · rw [hsame]
        exact .inl rfl
      · by_cases hmine : id = correlationId c.state
        · refine .inr ⟨c, a, previous, rfl, hrec, hmine.symm, ?_⟩
          have hlow := (hinv _ c a previous hc hrec.underway).2 hne
          rw [hset, Ranks.of_set, if_pos hmine, max_eq_right hlow.le]
        · rw [hset, Ranks.of_set, if_neg hmine]
          exact .inl rfl

/-! ## Being overtaken -/

/-- The turn records the success of an action while call `i`, of the same correlation and with an
    action that is not stronger, is between its lock regions. -/
def Pool.Overtakes (p : Pool F) (t : Turn F) (i : Nat) : Prop :=
  ∃ (c d : Call F) (a b : Action) (previous previous' : Int),
    p.calls[t.call]? = some c ∧ c.phase.Recording a previous ∧
    p.calls[i]? = some d ∧ d.phase.Underway b previous' ∧
    correlationId c.state ≠ [] ∧ correlationId d.state = correlationId c.state ∧ b.rank ≤ a.rank

/-- The turn records the success of an action. -/
def Pool.Records (p : Pool F) (t : Turn F) : Prop :=
  ∃ (c : Call F) (a : Action) (previous : Int),
    p.calls[t.call]? = some c ∧ c.phase.Recording a previous

/-- Some call that records its success was overtaken before. -/
def Overtaken (auto : Bool) (states : List (Mapping F)) (ts : List (Turn F)) : Prop :=
  ∃ (early late : List (Turn F)) (t t' : Turn F), early ++ [t] <+: late ∧ late ++ [t'] <+: ts ∧
    (afterTurns auto states early).Overtakes t t'.call ∧ (afterTurns auto states late).Records t'

/-- The executed rank of every correlation never decreases, and no two calls of one correlation
    whose actions have the same rank succeed. -/
def RanksHold (auto : Bool) (states : List (Mapping F)) (ts : List (Turn F)) : Prop :=
  (∀ id : PyStr, id ≠ [] → ∀ (before : List (Turn F)) (t : Turn F), before ++ [t] <+: ts →
    (afterTurns auto states before).ranks.of id ≤
      (afterTurns auto states (before ++ [t])).ranks.of id) ∧
  ∀ (i j : Nat) (c d : Call F), i ≠ j →
    (afterTurns auto states ts).calls[i]? = some c →
    (afterTurns auto states ts).calls[j]? = some d →
    correlationId c.state ≠ [] → correlationId c.state = correlationId d.state →
    (action c.state).map Action.rank = (action d.state).map Action.rank →
    ¬ (c.phase.Succeeded ∧ d.phase.Succeeded)

theorem Overtaken.of_prefix {auto : Bool} {states : List (Mapping F)} {ts ts' : List (Turn F)}
    (hpre : ts <+: ts') (h : Overtaken auto states ts) : Overtaken auto states ts' := by
  obtain ⟨early, late, t, t', hearly, hlate, hover, hrec⟩ := h
  exact ⟨early, late, t, t', hearly, hlate.trans hpre, hover, hrec⟩

/-- A call between its lock regions still has the larger rank, unless it was overtaken. -/
theorem underway_above (auto : Bool) (states : List (Mapping F)) (ts : List (Turn F)) :
    ∀ (i : Nat) (c : Call F) (a : Action) (previous : Int),
      (afterTurns auto states ts).calls[i]? = some c → c.phase.Underway a previous →
      correlationId c.state ≠ [] →
      (afterTurns auto states ts).ranks.of (correlationId c.state) < a.rank ∨
        ∃ early t, early ++ [t] <+: ts ∧ (afterTurns auto states early).Overtakes t i := by
  induction ts using List.reverseRecOn with
  | nil =>
      intro i c a previous hc hunder
      simp only [afterTurns, Pool.start, List.foldl_nil, List.getElem?_map,
        Option.map_eq_some_iff] at hc
      obtain ⟨state, -, rfl⟩ := hc
      cases hunder
  | append_singleton ts t ih =>
      intro i c' a previous hc' hunder hid
      rw [afterTurns_concat] at hc' ⊢
      have hinv := afterTurns_inv auto states ts
      have hgrow : ts <+: ts ++ [t] := List.prefix_append ..
      obtain ⟨c, hc, hstate, ⟨-, hmoved⟩ | ⟨-, rfl⟩⟩ := Pool.call_of_step auto hc'
      · rw [hstate] at hid ⊢
        generalize c'.phase = ph' at hmoved hunder
        generalize hph : c.phase = ph at hmoved
        generalize ((afterTurns auto states ts).step auto t).ranks = ranks' at hmoved ⊢
        cases hmoved with
        | checked a' ha hrank =>
            cases hunder
            exact .inl (hrank hid)
        | acted a' previous' r =>
            cases hunder
            rcases ih i c a previous hc (by rw [hph]; exact .acting) hid with hlt | hover
            · exact .inl hlt
            · obtain ⟨early, t₀, hpre, hover⟩ := hover
              exact .inr ⟨early, t₀, hpre.trans hgrow, hover⟩
        | stayed ph hidle => exact absurd hunder (hidle a previous)
        | answered r hr => cases hunder
        | committed a' previous' r => cases hunder
        | raised ph exc hph => cases hunder
      · rcases ih i c' a previous hc hunder hid with hlt | ⟨early, t₀, hpre, hover⟩
        · rcases Pool.step_rank auto hinv t (correlationId c'.state) with
            hsame | ⟨d, b, previous', hd, hrec, hsameId, hrank⟩
          · exact .inl (hsame ▸ hlt)
          · by_cases hweak : b.rank < a.rank
            · exact .inl (hrank ▸ hweak)
            · refine .inr ⟨ts, t, List.prefix_rfl, ?_⟩
              exact ⟨d, c', b, a, previous', previous, hd, hrec, hc, hunder, hsameId ▸ hid,
                hsameId.symm, not_lt.1 hweak⟩
        · exact .inr ⟨early, t₀, hpre.trans hgrow, hover⟩

/-- Without overtaking, a recorded success raises the rank of its correlation. -/
theorem recorded_above {auto : Bool} {states : List (Mapping F)} {ts : List (Turn F)}
    (hno : ¬ Overtaken auto states ts) {before : List (Turn F)} {t : Turn F}
    (hpre : before ++ [t] <+: ts) {c : Call F} {a : Action} {previous : Int}
    (hc : (afterTurns auto states before).calls[t.call]? = some c)
    (hrec : c.phase.Recording a previous) (hid : correlationId c.state ≠ []) :
    (afterTurns auto states before).ranks.of (correlationId c.state) < a.rank := by
  rcases underway_above auto states before _ c a previous hc hrec.underway hid with hlt | hover
  · exact hlt
  · obtain ⟨early, t₀, hearly, hover⟩ := hover
    exact absurd ⟨early, before, t₀, t, hearly, hpre, hover, c, a, previous, hc, hrec⟩ hno

/-- A call succeeds by recording its success. -/
theorem Moved.succeeded_cases {state : Mapping F} {ranks ranks' : Ranks} {ph ph' : Phase F}
    (h : Moved state ranks ph ph' ranks') (hs : ph'.Succeeded) :
    ph.Succeeded ∨ ∃ a previous, ph.Recording a previous := by
  cases h with
  | answered r hr =>
      obtain ⟨r', hr', hok⟩ := hs
      cases hr'
      exact absurd hok hr
  | committed a previous r =>
      obtain ⟨r', hr, hok⟩ := hs
      cases hr
      exact .inr ⟨a, previous, r, rfl, hok⟩
  | stayed ph hidle => exact .inl hs
  | checked a ha hrank => obtain ⟨_, hr, -⟩ := hs; cases hr
  | acted a previous r => obtain ⟨_, hr, -⟩ := hs; cases hr
  | raised ph exc hph => obtain ⟨_, hr, -⟩ := hs; cases hr

/-- A call that has succeeded stays as it is. -/
theorem Moved.of_succeeded {state : Mapping F} {ranks ranks' : Ranks} {ph ph' : Phase F}
    (h : Moved state ranks ph ph' ranks') (hs : ph.Succeeded) : ph'.Succeeded := by
  obtain ⟨r, rfl, hok⟩ := hs
  cases h with
  | stayed ph hidle => exact ⟨r, rfl, hok⟩
  | raised ph exc hph => rcases hph with hph | ⟨a, previous, hph⟩ <;> cases hph

theorem Moved.of_recording {state : Mapping F} {ranks ranks' : Ranks} {ph ph' : Phase F}
    {a : Action} {previous : Int} (h : Moved state ranks ph ph' ranks')
    (hrec : ph.Recording a previous) :
    ph'.Succeeded ∧ ranks' = commit state a previous .succeeded ranks := by
  obtain ⟨r, rfl, hok⟩ := hrec
  cases h with
  | committed a previous r => exact ⟨⟨r, rfl, hok⟩, by rw [hok]⟩
  | raised ph exc hph => rcases hph with hph | ⟨a, previous, hph⟩ <;> cases hph
  | stayed ph hidle => exact absurd (.deciding r) (hidle a previous)

theorem succeeded_of_prefix (auto : Bool) (states : List (Mapping F)) {ts ts' : List (Turn F)}
    (hpre : ts <+: ts') {i : Nat} {c : Call F}
    (hc : (afterTurns auto states ts).calls[i]? = some c) (hs : c.phase.Succeeded) :
    ∃ c', (afterTurns auto states ts').calls[i]? = some c' ∧ c'.state = c.state ∧
      c'.phase.Succeeded := by
  obtain ⟨rest, rfl⟩ := hpre
  induction rest using List.reverseRecOn with
  | nil => exact ⟨c, by simpa using hc, rfl, hs⟩
  | append_singleton rest t ih =>
      obtain ⟨d, hd, hstate, hds⟩ := ih
      rw [← List.append_assoc, afterTurns_concat]
      by_cases hi : i = t.call
      · subst hi
        obtain ⟨d', hstate', hmoved, hcalls⟩ := Pool.step_of_call auto hd
        refine ⟨d', ?_, hstate'.trans hstate, hmoved.of_succeeded hds⟩
        rw [hcalls, List.getElem?_set_self (List.getElem?_eq_some_iff.1 hd).1]
      · refine ⟨d, ?_, hstate, hds⟩
        cases ht : (afterTurns auto states (ts ++ rest)).calls[t.call]? with
        | none => rw [Pool.step_of_none auto ht, hd]
        | some e =>
            obtain ⟨e', -, -, hcalls⟩ := Pool.step_of_call auto ht
            rw [hcalls, List.getElem?_set_ne (Ne.symm hi), hd]

/-- A call that has succeeded after a turn had succeeded before, or the turn recorded it. -/
theorem newly_succeeded (auto : Bool) {p : Pool F} {t : Turn F} {i : Nat} {c' : Call F}
    (hc' : (p.step auto t).calls[i]? = some c') (hs : c'.phase.Succeeded) :
    ∃ c, p.calls[i]? = some c ∧ c'.state = c.state ∧
      (c.phase.Succeeded ∨ i = t.call ∧ ∃ a previous, c.phase.Recording a previous) := by
  obtain ⟨c, hc, hstate, ⟨hi, hmoved⟩ | ⟨-, rfl⟩⟩ := Pool.call_of_step auto hc'
  · refine ⟨c, hc, hstate, ?_⟩
    rcases hmoved.succeeded_cases hs with hs | hrec
    · exact .inl hs
    · exact .inr ⟨hi, hrec⟩
  · exact ⟨c', hc, rfl, .inl hs⟩

/-- Recording a success sets the rank of the correlation to that of the action. -/
theorem Pool.step_of_recording (auto : Bool) {p : Pool F} (hinv : PoolInv p) {t : Turn F}
    {c : Call F} {a : Action} {previous : Int} (hc : p.calls[t.call]? = some c)
    (hrec : c.phase.Recording a previous) (hid : correlationId c.state ≠ []) :
    (p.step auto t).ranks.of (correlationId c.state) = a.rank ∧
      ∃ c', (p.step auto t).calls[t.call]? = some c' ∧ c'.state = c.state ∧ c'.phase.Succeeded := by
  obtain ⟨c', hstate, hmoved, hcalls⟩ := Pool.step_of_call auto hc
  obtain ⟨hs, hranks⟩ := hmoved.of_recording hrec
  have hlow := (hinv _ c a previous hc hrec.underway).2 hid
  refine ⟨?_, c', ?_, hstate, hs⟩
  · rw [hranks, commit, if_pos ⟨hid, rfl⟩, Ranks.of_set, if_pos rfl, max_eq_right hlow.le]
  · rw [hcalls, List.getElem?_set_self (List.getElem?_eq_some_iff.1 hc).1]

/-! ## When the ranks hold -/

section NotOvertaken

variable {auto : Bool} {states : List (Mapping F)} {ts : List (Turn F)}

theorem rank_mono (hno : ¬ Overtaken auto states ts) {id : PyStr} (hid : id ≠ [])
    {before : List (Turn F)} {t : Turn F} (hpre : before ++ [t] <+: ts) :
    (afterTurns auto states before).ranks.of id ≤
      (afterTurns auto states (before ++ [t])).ranks.of id := by
  rw [afterTurns_concat]
  rcases Pool.step_rank auto (afterTurns_inv auto states before) t id with
    hsame | ⟨c, a, previous, hc, hrec, rfl, hrank⟩
  · exact hsame.ge
  · rw [hrank]
    exact (recorded_above hno hpre hc hrec hid).le

/-- The rank of a correlation is at least that of every action of it that has succeeded. -/
theorem succeeded_below (hno : ¬ Overtaken auto states ts) :
    ∀ (i : Nat) (c : Call F) (a : Action), (afterTurns auto states ts).calls[i]? = some c →
      c.phase.Succeeded → correlationId c.state ≠ [] → action c.state = some a →
      a.rank ≤ (afterTurns auto states ts).ranks.of (correlationId c.state) := by
  induction ts using List.reverseRecOn with
  | nil =>
      intro i c a hc hs
      simp only [afterTurns, Pool.start, List.foldl_nil, List.getElem?_map,
        Option.map_eq_some_iff] at hc
      obtain ⟨state, -, rfl⟩ := hc
      obtain ⟨_, hr, -⟩ := hs
      cases hr
  | append_singleton ts t ih =>
      intro i c' a hc' hs hid ha
      have hno' : ¬ Overtaken auto states ts := fun h =>
        hno (h.of_prefix (List.prefix_append ..))
      have hmono := rank_mono hno hid List.prefix_rfl
      rw [afterTurns_concat] at hc'
      obtain ⟨c, hc, hstate, hbefore | ⟨rfl, b, previous, hrec⟩⟩ := newly_succeeded auto hc' hs
      · have hle := ih hno' i c a hc hbefore (hstate ▸ hid) (hstate ▸ ha)
        rw [← hstate] at hle
        exact hle.trans hmono
      · have hinv := afterTurns_inv auto states ts
        have hab := (hinv _ c b previous hc hrec.underway).1
        rw [← hstate, ha] at hab
        cases hab
        have hset := (Pool.step_of_recording auto hinv hc hrec (hstate ▸ hid)).1
        rw [← hstate] at hset
        rw [afterTurns_concat, hset]

/-- A success recorded without overtaking is of a larger rank than all before it. -/
theorem recorded_rank_ne {t : Turn F} (hno : ¬ Overtaken auto states (ts ++ [t])) {j : Nat}
    {c d : Call F} {a : Action} {previous : Int}
    (hc : (afterTurns auto states ts).calls[t.call]? = some c)
    (hrec : c.phase.Recording a previous)
    (hd : (afterTurns auto states ts).calls[j]? = some d) (hs : d.phase.Succeeded)
    (hid : correlationId c.state ≠ []) (hsame : correlationId c.state = correlationId d.state) :
    (action c.state).map Action.rank ≠ (action d.state).map Action.rank := by
  have ha := (afterTurns_inv auto states ts _ c a previous hc hrec.underway).1
  have hno' : ¬ Overtaken auto states ts := fun h => hno (h.of_prefix (List.prefix_append ..))
  have habove := recorded_above hno List.prefix_rfl hc hrec hid
  rw [ha]
  cases hb : action d.state with
  | none => simp
  | some b =>
      have hbelow := succeeded_below hno' j d b hd hs (hsame ▸ hid) hb
      rw [← hsame] at hbelow
      simp only [Option.map_some, ne_eq, Option.some.injEq]
      omega

theorem succeeded_ranks_ne (hno : ¬ Overtaken auto states ts) :
    ∀ (i j : Nat) (c d : Call F), i ≠ j →
      (afterTurns auto states ts).calls[i]? = some c →
      (afterTurns auto states ts).calls[j]? = some d →
      correlationId c.state ≠ [] → correlationId c.state = correlationId d.state →
      (action c.state).map Action.rank = (action d.state).map Action.rank →
      ¬ (c.phase.Succeeded ∧ d.phase.Succeeded) := by
  induction ts using List.reverseRecOn with
  | nil =>
      rintro i j c d - hc - - - - ⟨⟨r, hr, -⟩, -⟩
      simp only [afterTurns, Pool.start, List.foldl_nil, List.getElem?_map,
        Option.map_eq_some_iff] at hc
      obtain ⟨state, -, rfl⟩ := hc
      cases hr
  | append_singleton ts t ih =>
      rintro i j c' d' hij hc' hd' hid hsame hrank ⟨hcs, hds⟩
      have hno' : ¬ Overtaken auto states ts := fun h =>
        hno (h.of_prefix (List.prefix_append ..))
      rw [afterTurns_concat] at hc' hd'
      obtain ⟨c, hc, hcstate, hcb⟩ := newly_succeeded auto hc' hcs
      obtain ⟨d, hd, hdstate, hdb⟩ := newly_succeeded auto hd' hds
      rw [hcstate] at hid
      rw [hcstate, hdstate] at hsame hrank
      rcases hcb with hcb | ⟨rfl, a, previous, hrec⟩
      · rcases hdb with hdb | ⟨rfl, a, previous, hrec⟩
        · exact ih hno' i j c d hij hc hd hid hsame hrank ⟨hcb, hdb⟩
        · exact recorded_rank_ne hno hd hrec hc hcb (hsame ▸ hid) hsame.symm hrank.symm
      · rcases hdb with hdb | ⟨rfl, -⟩
        · exact recorded_rank_ne hno hc hrec hd hdb hid hsame hrank
        · exact hij rfl

end NotOvertaken

/-- The calls keep their states. -/
theorem afterTurns_states (auto : Bool) (states : List (Mapping F)) (ts : List (Turn F)) :
    (afterTurns auto states ts).calls.map Call.state = states := by
  induction ts using List.reverseRecOn with
  | nil => simp [afterTurns, Pool.start, Function.comp_def]
  | append_singleton ts t ih =>
      rw [afterTurns_concat]
      cases hc : (afterTurns auto states ts).calls[t.call]? with
      | none => rw [Pool.step_of_none auto hc, ih]
      | some c =>
          obtain ⟨c', hstate, -, hcalls⟩ := Pool.step_of_call auto hc
          have hget : states[t.call]? = some c.state := by
            rw [← ih, List.getElem?_map, hc]
            rfl
          rw [hcalls, List.map_set, ih, hstate]
          obtain ⟨hlt, hget⟩ := List.getElem?_eq_some_iff.1 hget
          rw [← hget, List.set_getElem_self]

theorem state_eq (auto : Bool) (states : List (Mapping F)) {ts ts' : List (Turn F)} {i : Nat}
    {c c' : Call F} (hc : (afterTurns auto states ts).calls[i]? = some c)
    (hc' : (afterTurns auto states ts').calls[i]? = some c') : c.state = c'.state := by
  have h : ((afterTurns auto states ts).calls.map Call.state)[i]? =
      ((afterTurns auto states ts').calls.map Call.state)[i]? := by
    rw [afterTurns_states, afterTurns_states]
  rw [List.getElem?_map, List.getElem?_map, hc, hc'] at h
  simpa using h

theorem rank_le_of_prefix {auto : Bool} {states : List (Mapping F)} {ts : List (Turn F)}
    (h : RanksHold auto states ts) {id : PyStr} (hid : id ≠ []) {before after : List (Turn F)}
    (hpre : before <+: after) (hafter : after <+: ts) :
    (afterTurns auto states before).ranks.of id ≤ (afterTurns auto states after).ranks.of id := by
  obtain ⟨rest, rfl⟩ := hpre
  induction rest using List.reverseRecOn with
  | nil => simp
  | append_singleton rest t ih =>
      rw [← List.append_assoc] at hafter ⊢
      have hle := ih ((List.prefix_append ..).trans hafter)
      exact hle.trans (h.1 id hid _ t hafter)

/-- A call that overtakes another one and a call that is overtaken and then succeeds have actions of
    one rank, or the table loses the larger one. -/
theorem not_overtaken {auto : Bool} {states : List (Mapping F)} {ts : List (Turn F)}
    (h : RanksHold auto states ts) : ¬ Overtaken auto states ts := by
  rintro ⟨early, late, t, t', hearly, hlate, ⟨c, d, a, b, previous, previous', hc, hrec, hd, hunder,
    hid, hsame, hweak⟩, ⟨d', b', previous'', hd', hrec'⟩⟩
  have hearlyInv := afterTurns_inv auto states early
  have hlateInv := afterTurns_inv auto states late
  have hstate : d'.state = d.state := state_eq auto states hd' hd
  have ha := (hearlyInv _ c a previous hc hrec.underway).1
  have hb := (hearlyInv _ d b previous' hd hunder).1
  have hb' := (hlateInv _ d' b' previous'' hd' hrec'.underway).1
  rw [hstate, hb] at hb'
  cases hb'
  have hid' : correlationId d'.state = correlationId c.state := by rw [hstate, hsame]
  obtain ⟨hrank, c₁, hc₁, hc₁state, hc₁s⟩ :=
    Pool.step_of_recording auto hearlyInv hc hrec hid
  obtain ⟨hrank', d₁, hd₁, hd₁state, hd₁s⟩ :=
    Pool.step_of_recording auto hlateInv hd' hrec' (hid' ▸ hid)
  rw [← afterTurns_concat] at hrank hc₁ hrank' hd₁
  rw [hid'] at hrank'
  -- the rank the stronger action left is still there when the weaker one is recorded
  have hkept := rank_le_of_prefix h hid hearly ((List.prefix_append ..).trans hlate)
  have hlast := h.1 _ hid late t' hlate
  have hrankEq : a.rank = b.rank := by omega
  have hne : t.call ≠ t'.call := by
    intro heq
    obtain ⟨e, he, -, hes⟩ := succeeded_of_prefix auto states hearly hc₁ hc₁s
    rw [heq, hd'] at he
    cases he
    obtain ⟨r, hr, -⟩ := hrec'
    obtain ⟨r', hr', -⟩ := hes
    rw [hr] at hr'
    cases hr'
  obtain ⟨x, hx, hxstate, hxs⟩ :=
    succeeded_of_prefix auto states (hearly.trans ((List.prefix_append ..).trans hlate)) hc₁ hc₁s
  obtain ⟨y, hy, hystate, hys⟩ := succeeded_of_prefix auto states hlate hd₁ hd₁s
  rw [hc₁state] at hxstate
  rw [hd₁state, hstate] at hystate
  refine h.2 _ _ x y hne hx hy ?_ ?_ ?_ ⟨hxs, hys⟩
  · rw [hxstate]
    exact hid
  · rw [hxstate, hystate, hsame]
  · rw [hxstate, hystate, ha, hb, Option.map_some, Option.map_some, hrankEq]

/-- The executed ranks never decrease and no action of a correlation succeeds twice, in exactly the
    runs in which no call is overtaken. -/
theorem ranks_hold_iff (auto : Bool) (states : List (Mapping F)) (ts : List (Turn F)) :
    RanksHold auto states ts ↔ ¬ Overtaken auto states ts := by
  constructor
  · exact not_overtaken
  · intro hno
    exact ⟨fun id hid before t hpre => rank_mono hno hid hpre, succeeded_ranks_ne hno⟩

/-! ## Two schedules that overtake -/

/-- The state of a suspicious process. -/
def alertState : Mapping SampleFloat :=
  [(py "correlation_id", .str (py "c1")), (py "pid", .int 7), (py "status", .str (py "ACTIVE")),
    (py "combined_score", .int 45), (py "recommended_action", .str (py "ALERT"))]

/-- The state of an execution fanotify has denied. -/
def denialState : Mapping SampleFloat :=
  [(py "correlation_id", .str (py "c1")), (py "pid", .int 7),
    (py "status", .str (py "DENIED_PRE_EXECUTION")), (py "combined_score", .int 90),
    (py "recommended_action", .str (py "DENY"))]

def turnOf (i : Nat) : Turn SampleFloat where
  call := i
  stamp := ⟨py "a1", .zero, py "1970-01-01T00:00:00+00:00"⟩
  outcome := .declined []

/-- Both calls make their checks before either records its success. -/
def overlapping : List (Turn SampleFloat) := [0, 1, 0, 1, 0, 1].map turnOf

/-- With two alerts, both succeed; with an alert and a denial, the rank falls from that of the denial
    to that of the alert. -/
theorem overlapping_calls :
    ¬ RanksHold true [alertState, alertState] overlapping ∧
      ¬ RanksHold true [denialState, alertState] overlapping := by
  constructor
  · intro h
    refine h.2 0 1 _ _ (by decide) rfl rfl (by decide) rfl rfl ?_
    exact ⟨⟨_, rfl, rfl⟩, ⟨_, rfl, rfl⟩⟩
  · intro h
    have hle := h.1 (py "c1") (by decide) ([0, 1, 0, 1, 0].map turnOf) (turnOf 1) List.prefix_rfl
    exact absurd hle (by decide)

end Elyra.Response
