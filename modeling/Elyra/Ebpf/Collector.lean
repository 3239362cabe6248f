import Elyra.Counting.Recent
import Elyra.Counting.Walk
import Elyra.Ebpf.Event

set_option autoImplicit false

/-! # The eBPF collector

`EbpfFilterConfig.accepts` and `EBPFCollector.publish_event` of `monitor/ebpf/collector.py`, and the
collector's state: the parents of the processes that were executed, the recent renames and the queue. An
event is suppressed as a repeated rename, refused by the filter, dropped at a full queue, or queued; for
a negative `max_tracked_processes` an execution ends in the `KeyError` of an empty dictionary.

A run is a sequence of events, and of records that are taken from the queue, from an empty collector
(`Run`). -/

namespace Elyra.Ebpf

open Elyra.Python Elyra.Counting

/-! ## The filter -/

structure EbpfFilterConfig where
  monitoredUids : Finset Int
  monitoredTgids : Finset Int
  ignoredTgids : Finset Int
  includeDescendants : Bool
  maxTrackedProcesses : Int

/-- `current > 0` -/
def positive (current : Nat) : Option Nat := if 0 < current then some current else none

/-- `ancestry.get(current, 0)`, where it is a process. -/
def parentIn (ancestry : Dict Nat Nat) (current : Nat) : Option Nat :=
  positive ((ancestry.get? current).getD 0)

namespace EbpfFilterConfig

variable (cfg : EbpfFilterConfig)

/-- `current in self.monitored_tgids` -/
def monitors (current : Nat) : Bool := decide ((current : Int) ∈ cfg.monitoredTgids)

/-- The tests before the ones for monitored processes. -/
def ignores (e : EbpfEvent) : Bool :=
  decide ((e.tgid : Int) ∈ cfg.ignoredTgids ∨ (e.pid : Int) ∈ cfg.ignoredTgids)

def uidOk (e : EbpfEvent) : Bool :=
  decide (cfg.monitoredUids = ∅ ∨ (e.uid : Int) ∈ cfg.monitoredUids)

/-- The loop from the parent of an event. -/
def descends (ppid : Nat) (ancestry : Dict Nat Nat) : Bool :=
  search (parentIn ancestry) cfg.monitors (ancestry.size + 1) [] (positive ppid)

def accepts (e : EbpfEvent) (ancestry : Dict Nat Nat) : Bool :=
  if cfg.ignores e then false
  else if !cfg.uidOk e then false
  else if cfg.monitoredTgids = ∅ then true
  else if cfg.monitors e.tgid || cfg.monitors e.pid then true
  else if !cfg.includeDescendants then false
  else cfg.descends e.ppid ancestry

end EbpfFilterConfig

/-! ## Publishing -/

/-- `(event.tgid, event.uid, event.executable_identifier or "")` -/
abbrev Fingerprint := Nat × Nat × PyStr

def EbpfEvent.fingerprint (e : EbpfEvent) : Fingerprint :=
  (e.tgid, e.uid, e.executableIdentifier.getD [])

/-- The fields of the collector that publishing uses. The queue holds the events; the record of each is
    `EbpfEvent.record`. -/
structure Collector where
  ancestry : Dict Nat Nat
  recentRenameEvents : Dict Fingerprint Nat
  eventQueue : List EbpfEvent
  droppedEvents : Nat

def Collector.empty : Collector := ⟨Dict.empty, Dict.empty, [], 0⟩

/-- `_rename_dedup_window_ns`. -/
def renameDedupWindowNs : Nat := 10000000

/-- How `publish_event` ends: it returns `True` in the last case and `False` before, but for the
    `KeyError`. -/
inductive Outcome where
  | duplicate
  | raised
  | rejected
  | dropped
  | queued
  deriving DecidableEq, Repr

/-- The part for `FILE_RENAME`; `none` for a repeated one. -/
def Collector.noteRename (c : Collector) (e : EbpfEvent) : Option Collector :=
  if e.eventType = .fileRename then
    (note renameDedupWindowNs c.recentRenameEvents e.fingerprint e.timestampNs).map fun recent =>
      { c with recentRenameEvents := recent }
  else some c

/-- The part for `PROCESS_EXEC`, for the map of the parents. -/
def noteExec (cfg : EbpfFilterConfig) (ancestry : Dict Nat Nat) (e : EbpfEvent) : Dict Nat Nat :=
  if e.eventType = .processExec then
    (ancestry.setLast e.tgid e.ppid).trim cfg.maxTrackedProcesses.toNat
  else ancestry

/-- The part for `PROCESS_EXIT`. -/
def noteExit (ancestry : Dict Nat Nat) (e : EbpfEvent) : Dict Nat Nat :=
  if e.eventType = .processExit then ancestry.pop e.tgid else ancestry

/-- `put_nowait` raises `queue.Full`. -/
def queueFull (queueSize : Int) (c : Collector) : Bool :=
  decide (0 < queueSize ∧ queueSize ≤ c.eventQueue.length)

def publishEvent (cfg : EbpfFilterConfig) (queueSize : Int) (c : Collector) (e : EbpfEvent) :
    Outcome × Collector :=
  match c.noteRename e with
  | none => (.duplicate, c)
  | some c =>
      let ancestry := noteExec cfg c.ancestry e
      if e.eventType = .processExec ∧ cfg.maxTrackedProcesses < 0 then
        (.raised, { c with ancestry := ancestry })
      else
        let accepted := cfg.accepts e ancestry
        let c := { c with ancestry := noteExit ancestry e }
        if !accepted then (.rejected, c)
        else if queueFull queueSize c then
          (.dropped, { c with droppedEvents := c.droppedEvents + 1 })
        else (.queued, { c with eventQueue := c.eventQueue ++ [e] })

/-! ## What a step does -/

section Step

variable {cfg : EbpfFilterConfig} {queueSize : Int} {c : Collector} {e : EbpfEvent}

/-- A rename within the window of a remembered one is a duplicate, and nothing else is. -/
theorem noteRename_eq_none : c.noteRename e = none ↔ e.eventType = .fileRename ∧
    note renameDedupWindowNs c.recentRenameEvents e.fingerprint e.timestampNs = none := by
  unfold Collector.noteRename
  split
  · next hrename => rw [Option.map_eq_none_iff, and_iff_right hrename]
  · next hother => exact iff_of_false nofun fun h => hother h.1

theorem noteRename_fields {c' : Collector} (h : c.noteRename e = some c') :
    c'.ancestry = c.ancestry ∧ c'.eventQueue = c.eventQueue ∧
      (if e.eventType = .fileRename then note renameDedupWindowNs c.recentRenameEvents e.fingerprint
        e.timestampNs = some c'.recentRenameEvents
      else c'.recentRenameEvents = c.recentRenameEvents) := by
  unfold Collector.noteRename at h
  split at h
  · next hrename =>
      obtain ⟨recent, hrecent, rfl⟩ := Option.map_eq_some_iff.1 h
      exact ⟨rfl, rfl, by rw [if_pos hrename, hrecent]⟩
  · next hother =>
      obtain rfl := Option.some.inj h
      exact ⟨rfl, rfl, by rw [if_neg hother]⟩

theorem publishEvent_of_none (h : c.noteRename e = none) :
    publishEvent cfg queueSize c e = (.duplicate, c) := by
  rw [publishEvent, h]

/-- An event that is not a duplicate goes on to the filter and the queue. -/
theorem publishEvent_of_some {c' : Collector} (h : c.noteRename e = some c') :
    (publishEvent cfg queueSize c e).2.recentRenameEvents = c'.recentRenameEvents ∧
      (publishEvent cfg queueSize c e).2.ancestry = noteExit (noteExec cfg c.ancestry e) e ∧
      (publishEvent cfg queueSize c e).1 =
        if e.eventType = .processExec ∧ cfg.maxTrackedProcesses < 0 then .raised
        else if cfg.accepts e (noteExec cfg c.ancestry e) = false then .rejected
        else if queueFull queueSize c = true then .dropped else .queued := by
  obtain ⟨hancestry, hqueue, -⟩ := noteRename_fields h
  have hfull : queueFull queueSize { c' with ancestry := noteExit (noteExec cfg c.ancestry e) e } =
      queueFull queueSize c := by
    simp only [queueFull, hqueue]
  rw [publishEvent, h]
  simp only [hancestry]
  by_cases hraise : e.eventType = .processExec ∧ cfg.maxTrackedProcesses < 0
  · rw [if_pos hraise, if_pos hraise]
    refine ⟨rfl, ?_, rfl⟩
    rw [noteExit, if_neg]
    rw [hraise.1]
    decide
  · rw [if_neg hraise, if_neg hraise]
    cases cfg.accepts e (noteExec cfg c.ancestry e) with
    | false => exact ⟨rfl, rfl, rfl⟩
    | true =>
        simp only [Bool.not_true, Bool.false_eq_true, Bool.true_eq_false, if_false, hfull]
        split
        · exact ⟨rfl, rfl, rfl⟩
        · exact ⟨rfl, rfl, rfl⟩

theorem publishEvent_duplicate :
    (publishEvent cfg queueSize c e).1 = .duplicate ↔ c.noteRename e = none := by
  cases h : c.noteRename e with
  | none => exact iff_of_true (by rw [publishEvent_of_none h]) rfl
  | some c' =>
      refine iff_of_false ?_ nofun
      rw [(publishEvent_of_some h).2.2]
      split
      · decide
      split
      · decide
      split <;> decide

/-- The map of the parents does not depend on how the event ends. -/
theorem publishEvent_ancestry :
    (publishEvent cfg queueSize c e).2.ancestry = noteExit (noteExec cfg c.ancestry e) e := by
  cases h : c.noteRename e with
  | none =>
      have hrename := (noteRename_eq_none.1 h).1
      rw [publishEvent_of_none h, noteExec, noteExit, hrename]
      rfl
  | some c' => exact (publishEvent_of_some h).2.1

end Step

/-! ## Runs -/

/-- The events published so far, and how each ended. -/
abbrev Log := List (EbpfEvent × Outcome)

/-- A run in which every event meets a condition on the collector and the log it finds. -/
inductive Run (cfg : EbpfFilterConfig) (queueSize : Int) (ok : Collector → Log → EbpfEvent → Prop) :
    Collector → Log → Prop
  | start : Run cfg queueSize ok .empty []
  | publish {c : Collector} {log : Log} (h : Run cfg queueSize ok c log) (e : EbpfEvent)
      (he : ok c log e) : Run cfg queueSize ok (publishEvent cfg queueSize c e).2
        (log ++ [(e, (publishEvent cfg queueSize c e).1)])
  /-- `get_event` takes the oldest record. -/
  | get {c : Collector} {log : Log} (h : Run cfg queueSize ok c log) :
      Run cfg queueSize ok { c with eventQueue := c.eventQueue.tail } log

/-- One more event, with the way it ends. -/
theorem Run.snoc {cfg : EbpfFilterConfig} {queueSize : Int} {ok : Collector → Log → EbpfEvent → Prop}
    {c : Collector} {log : Log} (h : Run cfg queueSize ok c log) {e : EbpfEvent} {o : Outcome}
    (he : ok c log e) (ho : (publishEvent cfg queueSize c e).1 = o) :
    Run cfg queueSize ok (publishEvent cfg queueSize c e).2 (log ++ [(e, o)]) :=
  ho ▸ h.publish e he

/-- The events of a log. -/
def eventsOf (log : Log) : List EbpfEvent := log.map Prod.fst

theorem eventsOf_snoc (log : Log) (e : EbpfEvent) (o : Outcome) :
    eventsOf (log ++ [(e, o)]) = eventsOf log ++ [e] := by
  rw [eventsOf, List.map_append]
  rfl

/-- An entry of a longer log is the last one or an entry of the log before. -/
theorem log_snoc_cases {log pre post : Log} {x y : EbpfEvent × Outcome}
    (h : log ++ [x] = pre ++ y :: post) :
    pre = log ∧ y = x ∨ ∃ post', log = pre ++ y :: post' := by
  rcases List.eq_nil_or_concat post with rfl | ⟨post', last, rfl⟩
  · obtain ⟨hpre, hlast⟩ := List.append_inj' h rfl
    exact .inl ⟨hpre.symm, (List.singleton_inj.1 hlast).symm⟩
  · rw [List.concat_eq_append, ← List.cons_append, ← List.append_assoc] at h
    exact .inr ⟨post', (List.append_inj' h rfl).1⟩

/-- A run up to an entry of its log, which ends as the collector it finds there makes it. -/
theorem Run.split {cfg : EbpfFilterConfig} {queueSize : Int} {ok : Collector → Log → EbpfEvent → Prop}
    {c : Collector} {log pre post : Log} {e : EbpfEvent} {o : Outcome}
    (h : Run cfg queueSize ok c log) (hlog : log = pre ++ (e, o) :: post) :
    ∃ c₀, Run cfg queueSize ok c₀ pre ∧ (publishEvent cfg queueSize c₀ e).1 = o := by
  induction h generalizing post with
  | start => simp at hlog
  | @publish c log h e' _ ih =>
      rcases log_snoc_cases hlog with ⟨rfl, hlast⟩ | ⟨post', hlog'⟩
      · obtain ⟨rfl, rfl⟩ := Prod.mk.inj hlast
        exact ⟨c, h, rfl⟩
      · exact ih hlog'
  | get _ ih => exact ih hlog

/-- The run of some actions: an event is published, or (`none`) a record is taken from the queue. -/
def runFrom (cfg : EbpfFilterConfig) (queueSize : Int) :
    Collector × Log → List (Option EbpfEvent) → Collector × Log
  | s, [] => s
  | (c, log), none :: rest =>
      runFrom cfg queueSize ({ c with eventQueue := c.eventQueue.tail }, log) rest
  | (c, log), some e :: rest =>
      runFrom cfg queueSize ((publishEvent cfg queueSize c e).2,
        log ++ [(e, (publishEvent cfg queueSize c e).1)]) rest

/-- Every sequence of actions is a run. -/
theorem run_runFrom {cfg : EbpfFilterConfig} {queueSize : Int} (actions : List (Option EbpfEvent)) :
    ∀ {s : Collector × Log}, Run cfg queueSize (fun _ _ _ => True) s.1 s.2 →
      Run cfg queueSize (fun _ _ _ => True) (runFrom cfg queueSize s actions).1
        (runFrom cfg queueSize s actions).2 := by
  induction actions with
  | nil => exact fun h => h
  | cons action rest ih =>
      rintro ⟨c, log⟩ h
      cases action with
      | none => exact ih h.get
      | some e => exact ih (h.publish e trivial)

end Elyra.Ebpf
