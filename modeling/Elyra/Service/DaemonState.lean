import Elyra.Ebpf.Collector
import Elyra.Service.Handler
import Elyra.Service.Requests

set_option autoImplicit false
set_option linter.unusedSectionVars false

/-! # The state of the daemon and the telemetry that fills it

`ElyraDaemonState` of `service/daemon.py`, and the way of the eBPF events into it: from the callbacks of
`monitor/ebpf/collector.py` through the queue of the collector to `_consume_ebpf_events`. The calls come
from several threads and each is atomic, so a run is any sequence of them. -/

namespace Elyra.Service

open Elyra.Python Elyra.Ebpf

variable {α E F : Type}

/-! ## Slices -/

/-- The last `n` elements. -/
def lastN (n : Nat) (xs : List α) : List α := xs.drop (xs.length - n)

/-- `xs[-n:]`; for 0 it is all of `xs`, and for a negative `n` it counts from the front. -/
def sliceFromEnd (xs : List α) (n : Int) : List α :=
  if 0 < n then lastN n.toNat xs else xs.drop (-n).toNat

theorem lastN_of_length_le {n : Nat} {xs : List α} (h : xs.length ≤ n) : lastN n xs = xs := by
  rw [lastN, Nat.sub_eq_zero_of_le h, List.drop_zero]

theorem length_lastN (n : Nat) (xs : List α) : (lastN n xs).length = min n xs.length := by
  rw [lastN, List.length_drop]
  omega

theorem lastN_lastN {n m : Nat} (h : n ≤ m) (xs : List α) : lastN n (lastN m xs) = lastN n xs := by
  unfold lastN
  rw [List.drop_drop, List.length_drop]
  congr 1
  omega

/-- What is forgotten before an element comes would be forgotten after it. -/
theorem lastN_concat (n : Nat) (xs : List α) (x : α) :
    lastN n (lastN n xs ++ [x]) = lastN n (xs ++ [x]) := by
  unfold lastN
  rw [List.length_append, List.length_append, List.length_drop, List.length_singleton]
  by_cases h : xs.length ≤ n
  · rw [Nat.sub_eq_zero_of_le h, List.drop_zero]
    congr 1
  · have hcut : (xs ++ [x]).drop (xs.length - n) = xs.drop (xs.length - n) ++ [x] :=
      List.drop_append_of_le_length (by omega)
    rw [← hcut, List.drop_drop]
    congr 1
    omega

/-! ## The state -/

/-- The entries of the list of events are an arbitrary type. -/
structure ElyraDaemonState (E F : Type) where
  fanotifyActive : Bool
  ebpfActive : Bool
  degradedComponents : List PyStr
  recentEvents : List E
  updateStatus : Mapping F

/-- What `snapshot` returns. -/
structure StateSnapshot (E F : Type) where
  apiVersion : Int
  fanotifyActive : Bool
  ebpfActive : Bool
  degradedComponents : List PyStr
  recentEventCount : Nat
  recentEvents : List E
  correlation : Mapping F
  update : Mapping F

/-- The default of `max_events`, which all callers leave. -/
def maxEvents : Int := 200

namespace ElyraDaemonState

def initial : ElyraDaemonState E F where
  fanotifyActive := false
  ebpfActive := false
  degradedComponents := []
  recentEvents := []
  updateStatus := [(py "status", .str (py "CHECK_DISABLED")), (py "can_defer", .bool true)]

variable (s : ElyraDaemonState E F)

/-- The flag that the name stands for. -/
def setFlag (name : PyStr) (active : Bool) : ElyraDaemonState E F :=
  if name = py "fanotify" then { s with fanotifyActive := active }
  else if name = py "ebpf" then { s with ebpfActive := active }
  else s

/-- `set_component`. -/
def setComponent (name : PyStr) (active : Bool) : ElyraDaemonState E F :=
  let s := s.setFlag name active
  if active then { s with degradedComponents := s.degradedComponents.filter fun item => item ≠ name }
  else if name ∈ s.degradedComponents then s
  else { s with degradedComponents := s.degradedComponents ++ [name] }

/-- `note_event`. -/
def noteEvent (entry : E) (max : Int) : ElyraDaemonState E F :=
  let events := s.recentEvents ++ [entry]
  { s with recentEvents := if (events.length : Int) > max then sliceFromEnd events max else events }

/-- `recent`. -/
def recent (limit : Int) : List E := sliceFromEnd s.recentEvents limit

/-- `snapshot`. -/
def snapshot (correlationSummary : Mapping F) : StateSnapshot E F where
  apiVersion := protocolVersion
  fanotifyActive := s.fanotifyActive
  ebpfActive := s.ebpfActive
  degradedComponents := s.degradedComponents
  recentEventCount := s.recentEvents.length
  recentEvents := sliceFromEnd s.recentEvents 20
  correlation := correlationSummary
  update := s.updateStatus

end ElyraDaemonState

/-! ## Runs of calls -/

/-- A call that changes the state. -/
inductive StateCall (E : Type) where
  | setComponent (name : PyStr) (active : Bool)
  | noteEvent (entry : E)

namespace StateCall

def apply (s : ElyraDaemonState E F) : StateCall E → ElyraDaemonState E F
  | .setComponent name active => s.setComponent name active
  | .noteEvent entry => s.noteEvent entry maxEvents

/-- The events noted by some calls, all of them. -/
def noted (calls : List (StateCall E)) : List E :=
  calls.filterMap fun
    | .noteEvent entry => some entry
    | .setComponent _ _ => none

/-- What a component was last set to. -/
def lastSet (name : PyStr) (calls : List (StateCall E)) : Option Bool :=
  (calls.filterMap fun
    | .setComponent n active => if n = name then some active else none
    | .noteEvent _ => none).getLast?

theorem noted_concat (calls : List (StateCall E)) (call : StateCall E) :
    noted (calls ++ [call]) = noted calls ++ noted [call] := List.filterMap_append

theorem lastSet_concat (name : PyStr) (calls : List (StateCall E)) (n : PyStr) (active : Bool) :
    lastSet name (calls ++ [.setComponent n active]) =
      if n = name then some active else lastSet name calls := by
  unfold lastSet
  rw [List.filterMap_append]
  by_cases h : n = name
  · simp [h]
  · simp [h]

theorem lastSet_concat_note (name : PyStr) (calls : List (StateCall E)) (entry : E) :
    lastSet name (calls ++ [.noteEvent entry]) = lastSet name calls := by
  unfold lastSet
  rw [List.filterMap_append]
  simp

end StateCall

/-- What the state says of the calls that have led to it. -/
structure Reflects (calls : List (StateCall E)) (s : ElyraDaemonState E F) : Prop where
  /-- The last events, and no other. -/
  events : s.recentEvents = lastN 200 (StateCall.noted calls)
  /-- A component is degraded if it was last set to be inactive; one that was never set is not. -/
  degraded : ∀ name, name ∈ s.degradedComponents ↔ StateCall.lastSet name calls = some false
  once : s.degradedComponents.Nodup
  fanotify : s.fanotifyActive = (StateCall.lastSet (py "fanotify") calls).getD false
  ebpf : s.ebpfActive = (StateCall.lastSet (py "ebpf") calls).getD false

section Calls

variable {calls : List (StateCall E)} {s : ElyraDaemonState E F}

theorem noteEvent_recentEvents (entry : E) :
    (s.noteEvent entry maxEvents).recentEvents = lastN 200 (s.recentEvents ++ [entry]) := by
  unfold ElyraDaemonState.noteEvent
  -- The list is cut only where it is too long, and cutting a short one changes nothing.
  by_cases hlong : ((s.recentEvents ++ [entry]).length : Int) > maxEvents
  · simp only [if_pos hlong]
    exact if_pos (by decide)
  · simp only [if_neg hlong]
    have hmax : maxEvents = 200 := rfl
    exact (lastN_of_length_le (by omega)).symm

theorem reflects_initial : Reflects [] (.initial : ElyraDaemonState E F) where
  events := (lastN_of_length_le (Nat.zero_le 200)).symm
  degraded _ := iff_of_false List.not_mem_nil (by simp [StateCall.lastSet])
  once := List.nodup_nil
  fanotify := rfl
  ebpf := rfl

theorem Reflects.note (h : Reflects calls s) (entry : E) :
    Reflects (calls ++ [.noteEvent entry]) (s.noteEvent entry maxEvents) := by
  constructor
  · have hnoted : StateCall.noted (calls ++ [.noteEvent entry]) = StateCall.noted calls ++ [entry] :=
      StateCall.noted_concat calls _
    rw [hnoted, ← lastN_concat, ← h.events, noteEvent_recentEvents]
  · intro name
    rw [StateCall.lastSet_concat_note]
    exact h.degraded name
  · exact h.once
  · rw [StateCall.lastSet_concat_note]
    exact h.fanotify
  · rw [StateCall.lastSet_concat_note]
    exact h.ebpf

@[simp]
theorem setFlag_recentEvents (name : PyStr) (active : Bool) :
    (s.setFlag name active).recentEvents = s.recentEvents := by
  unfold ElyraDaemonState.setFlag
  split_ifs <;> rfl

@[simp]
theorem setFlag_degradedComponents (name : PyStr) (active : Bool) :
    (s.setFlag name active).degradedComponents = s.degradedComponents := by
  unfold ElyraDaemonState.setFlag
  split_ifs <;> rfl

theorem setFlag_fanotifyActive (name : PyStr) (active : Bool) :
    (s.setFlag name active).fanotifyActive =
      if name = py "fanotify" then active else s.fanotifyActive := by
  unfold ElyraDaemonState.setFlag
  split_ifs <;> rfl

theorem setFlag_ebpfActive (name : PyStr) (active : Bool) :
    (s.setFlag name active).ebpfActive = if name = py "ebpf" then active else s.ebpfActive := by
  have hne : py "ebpf" ≠ py "fanotify" := by decide
  unfold ElyraDaemonState.setFlag
  by_cases hname : name = py "ebpf"
  · subst hname
    rw [if_neg hne, if_pos rfl, if_pos rfl]
  · rw [if_neg hname, if_neg hname]
    split <;> rfl

theorem setComponent_fields (name : PyStr) (active : Bool) :
    (s.setComponent name active).recentEvents = s.recentEvents ∧
      (s.setComponent name active).fanotifyActive = (s.setFlag name active).fanotifyActive ∧
      (s.setComponent name active).ebpfActive = (s.setFlag name active).ebpfActive := by
  unfold ElyraDaemonState.setComponent
  simp only
  split_ifs <;> exact ⟨setFlag_recentEvents name _, rfl, rfl⟩

theorem Reflects.set (h : Reflects calls s) (name : PyStr) (active : Bool) :
    Reflects (calls ++ [.setComponent name active]) (s.setComponent name active) := by
  obtain ⟨hevents, hfanotify, hebpf⟩ := setComponent_fields (s := s) name active
  have hflag : ∀ flag : PyStr, ∀ b : Bool,
      b = (StateCall.lastSet flag calls).getD false →
      (if name = flag then active else b) =
        (StateCall.lastSet flag (calls ++ [.setComponent name active])).getD false := by
    intro flag b hb
    rw [StateCall.lastSet_concat]
    by_cases hname : name = flag
    · rw [if_pos hname, if_pos hname, Option.getD_some]
    · rw [if_neg hname, if_neg hname, hb]
  constructor
  · rw [hevents, h.events, StateCall.noted_concat]
    exact congrArg (lastN 200) (List.append_nil _).symm
  · intro item
    rw [StateCall.lastSet_concat]
    unfold ElyraDaemonState.setComponent
    cases active with
    | true =>
        simp only [if_true, setFlag_degradedComponents, List.mem_filter, decide_eq_true_eq, h.degraded]
        by_cases hname : name = item
        · simp [hname]
        · simp [hname, Ne.symm hname]
    | false =>
        simp only [Bool.false_eq_true, if_false, setFlag_degradedComponents]
        by_cases hmem : name ∈ s.degradedComponents
        · rw [if_pos hmem, setFlag_degradedComponents, h.degraded]
          by_cases hname : name = item
          · subst hname
            rw [if_pos rfl]
            exact iff_of_true ((h.degraded name).1 hmem) rfl
          · rw [if_neg hname]
        · rw [if_neg hmem, List.mem_append, List.mem_singleton, h.degraded]
          by_cases hname : name = item
          · subst hname
            rw [if_pos rfl]
            exact iff_of_true (.inr rfl) rfl
          · rw [if_neg hname]
            exact or_iff_left (Ne.symm hname)
  · unfold ElyraDaemonState.setComponent
    simp only [setFlag_degradedComponents]
    split_ifs with hactive hmem
    · exact h.once.filter _
    · rw [setFlag_degradedComponents]
      exact h.once
    · exact List.nodup_append.2 ⟨h.once, List.nodup_singleton name, by
        rintro a ha b hb rfl
        exact hmem (List.mem_singleton.1 hb ▸ ha)⟩
  · rw [hfanotify, setFlag_fanotifyActive]
    exact hflag _ _ h.fanotify
  · rw [hebpf, setFlag_ebpfActive]
    exact hflag _ _ h.ebpf

/-- **Every run of calls**, from whatever threads they come. -/
theorem reflects_calls (calls : List (StateCall E)) :
    Reflects calls (calls.foldl StateCall.apply (.initial : ElyraDaemonState E F)) := by
  induction calls using List.reverseRecOn with
  | nil => exact reflects_initial
  | append_singleton calls call ih =>
      rw [List.foldl_append]
      cases call with
      | setComponent name active => exact ih.set name active
      | noteEvent entry => exact ih.note entry

end Calls

/-! ## The telemetry -/

/-- An entry of the list of events: an eBPF event with the summary and the correlation it was given, or
    the entry of another source. -/
inductive Entry (F : Type) where
  | ebpf (event : EbpfEvent) (runtimeSummary correlation : Mapping F)
  | other (entry : Mapping F)

/-- The eBPF event of an entry. -/
def Entry.event? : Entry F → Option EbpfEvent
  | .ebpf event _ _ => some event
  | .other _ => none

section Lost

variable [FloatNum F]

/-- The number of lost events that the arguments of `_on_lost_events` tell; `none` where the call is
    passed over. -/
def lostCount (callbackArgs : List (Json F)) : Except PyExc (Option Nat) :=
  match callbackArgs with
  | [count] | [_, count] =>
      match pyInt count with
      | .ok n => .ok (if n < 0 then none else some n.toNat)
      -- `int` of an infinity is an `OverflowError`, which the handler does not catch.
      | .error .overflowError => .error .overflowError
      | .error _ => .ok none
  | _ => .ok none

/-- `_on_lost_events`. -/
def onLostEvents (c : Collector) (callbackArgs : List (Json F)) : Except PyExc Collector :=
  (lostCount callbackArgs).map fun count => { c with droppedEvents := c.droppedEvents + count.getD 0 }

end Lost

/-- The collector, the consumer thread, the state of the daemon, and what has happened: how each event
    ended, all the entries that were noted, and how many events the kernel has reported as lost. -/
structure Telemetry (F : Type) where
  collector : Collector
  /-- The event that `_consume_ebpf_events` has fetched and not noted. -/
  inFlight : Option EbpfEvent
  /-- The consumer thread runs. -/
  consuming : Bool
  state : ElyraDaemonState (Entry F) F
  log : Log
  noted : List (Entry F)
  lost : Nat

inductive TelemetryStep (F : Type) where
  /-- `_on_raw_event` of an event that was decoded. -/
  | publish (event : EbpfEvent)
  | lost (callbackArgs : List (Json F))
  /-- `fetch_event` of `_consume_ebpf_events`. -/
  | fetch
  /-- `note_event` of it, with what the two engines have made of the event. -/
  | consume (runtimeSummary correlation : EbpfEvent → Mapping F)
  /-- An exception, of an engine, of the audit record or of the response, ends the consumer thread. -/
  | consumerEnds
  /-- `note_event` by another thread. -/
  | note (entry : Mapping F)
  | setComponent (name : PyStr) (active : Bool)

namespace Telemetry

variable [FloatNum F]

def start : Telemetry F := ⟨.empty, none, true, .initial, [], [], 0⟩

def note (t : Telemetry F) (entry : Entry F) : Telemetry F :=
  { t with state := t.state.noteEvent entry maxEvents, noted := t.noted ++ [entry] }

def step (cfg : EbpfFilterConfig) (queueSize : Int) (t : Telemetry F) :
    TelemetryStep F → Telemetry F
  | .publish event =>
      { t with
        collector := (publishEvent cfg queueSize t.collector event).2
        log := t.log ++ [(event, (publishEvent cfg queueSize t.collector event).1)] }
  | .lost callbackArgs =>
      match lostCount callbackArgs, onLostEvents t.collector callbackArgs with
      | .ok count, .ok collector =>
          { t with collector := collector, lost := t.lost + count.getD 0 }
      | _, _ => t
  | .fetch =>
      match t.consuming, t.inFlight, t.collector.eventQueue with
      | true, none, event :: rest =>
          { t with collector := { t.collector with eventQueue := rest }, inFlight := some event }
      | _, _, _ => t
  | .consume runtimeSummary correlation =>
      match t.consuming, t.inFlight with
      | true, some event =>
          { t with inFlight := none }.note
            (.ebpf event (runtimeSummary event) (correlation event))
      | _, _ => t
  -- The event it has fetched stays where nobody sees it.
  | .consumerEnds => { t with consuming := false }
  | .note entry => t.note (.other entry)
  | .setComponent name active => { t with state := t.state.setComponent name active }

def run (cfg : EbpfFilterConfig) (queueSize : Int) (steps : List (TelemetryStep F)) : Telemetry F :=
  steps.foldl (step cfg queueSize) start

/-- The events that ended in a way. -/
def ended (log : Log) (outcome : Outcome) : List EbpfEvent :=
  (log.filter fun x => x.2 = outcome).map Prod.fst

/-- Where every event is. -/
structure Conserved (t : Telemetry F) : Prop where
  /-- The accepted events have been noted, in their order and once, but for one that the consumer has
      in hand and those that wait in the queue. -/
  queued : t.noted.filterMap Entry.event? ++ t.inFlight.toList ++ t.collector.eventQueue =
    ended t.log .queued
  /-- The counter of the collector has those the kernel lost and those the full queue refused. -/
  dropped : t.collector.droppedEvents = t.lost + (ended t.log .dropped).length
  events : t.state.recentEvents = lastN 200 t.noted

theorem publishEvent_counts (cfg : EbpfFilterConfig) (queueSize : Int) (c : Collector)
    (e : EbpfEvent) :
    (publishEvent cfg queueSize c e).2.eventQueue =
        c.eventQueue ++ (if (publishEvent cfg queueSize c e).1 = .queued then [e] else []) ∧
      (publishEvent cfg queueSize c e).2.droppedEvents =
        c.droppedEvents + (if (publishEvent cfg queueSize c e).1 = .dropped then 1 else 0) := by
  unfold publishEvent
  cases hnote : c.noteRename e with
  | none => simp
  | some c' =>
      have hqueue := (noteRename_fields hnote).2.1
      have hdropped : c'.droppedEvents = c.droppedEvents := by
        unfold Collector.noteRename at hnote
        split at hnote
        · obtain ⟨recent, -, rfl⟩ := Option.map_eq_some_iff.1 hnote
          rfl
        · obtain rfl := Option.some.inj hnote
          rfl
      simp only
      split_ifs <;> simp_all

theorem ended_concat (log : Log) (e : EbpfEvent) (o outcome : Outcome) :
    ended (log ++ [(e, o)]) outcome = ended log outcome ++ if o = outcome then [e] else [] := by
  unfold ended
  rw [List.filter_append, List.map_append]
  by_cases h : o = outcome
  · simp [h]
  · simp [h]

variable {cfg : EbpfFilterConfig} {queueSize : Int} {t : Telemetry F}

/-- An entry is noted, and the list of events is cut to its last 200. -/
theorem Conserved.note_events (h : t.state.recentEvents = lastN 200 t.noted) (entry : Entry F) :
    (t.note entry).state.recentEvents = lastN 200 (t.note entry).noted := by
  show (t.state.noteEvent entry maxEvents).recentEvents = lastN 200 (t.noted ++ [entry])
  rw [noteEvent_recentEvents, h, lastN_concat]

/-- **One step keeps the accounts.** -/
theorem Conserved.step (h : t.Conserved) (act : TelemetryStep F) :
    (t.step cfg queueSize act).Conserved := by
  cases act with
  | publish event =>
      obtain ⟨hqueue, hdropped⟩ := publishEvent_counts cfg queueSize t.collector event
      constructor
      · show t.noted.filterMap Entry.event? ++ t.inFlight.toList ++
            (publishEvent cfg queueSize t.collector event).2.eventQueue = ended (t.log ++ [_]) .queued
        rw [hqueue, ended_concat, ← List.append_assoc, h.queued]
      · show (publishEvent cfg queueSize t.collector event).2.droppedEvents =
          t.lost + (ended (t.log ++ [_]) .dropped).length
        rw [hdropped, ended_concat, h.dropped, List.length_append]
        split <;> simp [Nat.add_assoc]
      · exact h.events
  | lost callbackArgs =>
      simp only [Telemetry.step, onLostEvents]
      cases lostCount callbackArgs with
      | error e => exact h
      | ok count =>
          constructor
          · exact h.queued
          · show t.collector.droppedEvents + count.getD 0 = _
            rw [h.dropped]
            exact Nat.add_right_comm _ _ _
          · exact h.events
  | fetch =>
      simp only [Telemetry.step]
      split
      · next event rest _ hhand hqueue =>
        -- The event at the head of the queue goes over into the hand of the consumer.
        have hqueued := h.queued
        rw [hhand, hqueue] at hqueued
        constructor
        · show t.noted.filterMap Entry.event? ++ [event] ++ rest = ended t.log .queued
          rw [← hqueued]
          simp
        · exact h.dropped
        · exact h.events
      · exact h
  | consume runtimeSummary correlation =>
      simp only [Telemetry.step]
      split
      · next event _ hhand =>
        have hqueued := h.queued
        rw [hhand] at hqueued
        constructor
        · show (t.noted ++ [_]).filterMap Entry.event? ++ [] ++ t.collector.eventQueue =
            ended t.log .queued
          rw [← hqueued, List.filterMap_append, List.append_nil]
          rfl
        · exact h.dropped
        · exact Conserved.note_events h.events _
      · exact h
  | consumerEnds => exact ⟨h.queued, h.dropped, h.events⟩
  | note entry =>
      constructor
      · show (t.noted ++ [_]).filterMap Entry.event? ++ t.inFlight.toList ++ t.collector.eventQueue =
          ended t.log .queued
        rw [← h.queued, List.filterMap_append]
        exact congrArg (· ++ _ ++ _) (List.append_nil _)
      · exact h.dropped
      · exact Conserved.note_events h.events _
  | setComponent name active =>
      constructor
      · exact h.queued
      · exact h.dropped
      · show (t.state.setComponent name active).recentEvents = lastN 200 t.noted
        rw [(setComponent_fields name active).1, h.events]

theorem conserved_run (steps : List (TelemetryStep F)) : (run cfg queueSize steps).Conserved := by
  induction steps using List.reverseRecOn with
  | nil => exact ⟨rfl, rfl, (lastN_of_length_le (Nat.zero_le 200)).symm⟩
  | append_singleton steps act ih =>
      rw [run, List.foldl_append]
      exact ih.step act

end Telemetry

/-! ## Listing the events -/

/-- The limit of a decoded request for the events. -/
theorem limitOf_decoded [PyFloat F] {parse : Loads F} {line : Bytes} {request : RequestMessage F}
    (h : decodeRequestLine parse line = .ok request) (haction : request.action = .listEvents) :
    1 ≤ limitOf request.params ∧ limitOf request.params ≤ 200 := by
  obtain ⟨value, hvalue⟩ : ∃ value, validateRequestObject value = .ok request := by
    unfold decodeRequestLine at h
    split_ifs at h
    split at h
    · cases h
    · split at h
      · cases h
      · cases h
      · next value _ =>
        split at h
        · cases h
        · next hvalue =>
          obtain rfl := Except.ok.inj h
          exact ⟨value, hvalue⟩
  obtain ⟨_, action, params, -, -, -, -, -, -, -, -, hparams, -⟩ := validateRequestObject_ok_iff.1 hvalue
  have hnormal := (validateActionParams_ok_iff.1 hparams).2.2.2
  rw [haction] at hnormal
  obtain ⟨n, hlow, hhigh, hassign⟩ := validateLimit_ok hnormal
  have hlimit : limitOf request.params = n := by
    rw [limitOf, hassign, lookup_assign, if_pos rfl]
  rw [hlimit]
  exact ⟨hlow, hhigh⟩

/-- **What `list_events` answers** in every run of the telemetry, whatever the line of the request is:
    the last events that were noted, as many as were asked for, none left out and none twice; and an
    event that the collector has accepted was noted, is in the hand of the consumer or waits in the
    queue. -/
theorem list_events_conserved [FloatNum F] (cfg : EbpfFilterConfig) (queueSize : Int)
    (steps : List (TelemetryStep F)) (parse : Loads F) (line : Bytes) (request : RequestMessage F)
    (h : decodeRequestLine parse line = .ok request) (haction : request.action = .listEvents) :
    (Telemetry.run cfg queueSize steps).state.recent (limitOf request.params) =
        lastN (limitOf request.params).toNat (Telemetry.run cfg queueSize steps).noted ∧
      (Telemetry.run cfg queueSize steps).Conserved := by
  obtain ⟨hlow, hhigh⟩ := limitOf_decoded h haction
  have hconserved : (Telemetry.run cfg queueSize steps).Conserved := Telemetry.conserved_run steps
  refine ⟨?_, hconserved⟩
  rw [ElyraDaemonState.recent, sliceFromEnd, if_pos (by omega), hconserved.events]
  exact lastN_lastN (by omega) _

/-- A process writes three times. The first write is noted, another source notes an entry, and the
    consumer has the second write in hand while the third waits. -/
def threeWrites : List (TelemetryStep SampleFloat) :=
  let write (tgid : Nat) : EbpfEvent := {
    eventType := .fileWrite
    timestampNs := 1
    pid := tgid
    tgid := tgid
    ppid := 1
    uid := 1000
    comm := py "sh" }
  [.publish (write 7), .publish (write 8), .fetch, .publish (write 9), .consume (fun _ => []) (fun _ => []),
    .note [(py "source", .str (py "fanotify"))], .fetch]

theorem list_events_two : ∃ line,
    decodeRequestLine jsonLoads line = .ok eventsRequest ∧
      let t := Telemetry.run ⟨∅, ∅, ∅, true, 16⟩ 4096 threeWrites
      t.noted.length = 2 ∧ t.inFlight.isSome = true ∧ t.collector.eventQueue.length = 1 ∧
        t.state.recent 50 = lastN 50 t.noted ∧ t.Conserved := by
  have hdict : (Json.obj ((none : Option (Mapping SampleFloat)).getD [])).WF :=
    ⟨List.nodup_nil, trivial⟩
  obtain ⟨bytes, hbytes⟩ : ∃ bytes, encodeJsonLine eventsRequest.toJson maxRequestBytes = .ok bytes :=
    encodeJsonLine_ascii (by decide) (by decide) (by decide +kernel)
  obtain ⟨line, -, -, -, hdecode⟩ := decodeRequestLine_of_build hdict eventsRequest_built hbytes le_rfl
  refine ⟨line, hdecode, by decide +kernel, by decide +kernel, by decide +kernel, ?_⟩
  exact list_events_conserved _ _ _ jsonLoads line eventsRequest hdecode rfl

/-- What `snapshot` shows of the calls that have led to the state. -/
structure SnapshotReflects (calls : List (StateCall E)) (snap : StateSnapshot E F) : Prop where
  events : snap.recentEvents = lastN 20 (StateCall.noted calls)
  count : snap.recentEventCount = min 200 (StateCall.noted calls).length
  degraded : ∀ name, name ∈ snap.degradedComponents ↔ StateCall.lastSet name calls = some false
  once : snap.degradedComponents.Nodup
  fanotify : snap.fanotifyActive = (StateCall.lastSet (py "fanotify") calls).getD false
  ebpf : snap.ebpfActive = (StateCall.lastSet (py "ebpf") calls).getD false

/-- **What `get_status` shows** after any calls of any threads: the last 20 events, the number of those
    that are kept, and of each component what it was last set to. -/
theorem snapshot_reflects (calls : List (StateCall E)) (correlationSummary : Mapping F) :
    SnapshotReflects calls
      ((calls.foldl StateCall.apply (.initial : ElyraDaemonState E F)).snapshot correlationSummary) := by
  have h := reflects_calls (F := F) calls
  constructor
  · show sliceFromEnd _ 20 = _
    rw [sliceFromEnd, if_pos (by decide), h.events]
    exact lastN_lastN (by decide) _
  · show List.length _ = _
    rw [h.events, length_lastN]
  · exact h.degraded
  · exact h.once
  · exact h.fanotify
  · exact h.ebpf

end Elyra.Service
