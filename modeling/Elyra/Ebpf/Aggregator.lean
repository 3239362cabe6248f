import Elyra.Counting.Distinct
import Elyra.Ebpf.Event

set_option autoImplicit false
set_option linter.unusedSectionVars false

/-! # The runtime telemetry

`RuntimeTelemetryAggregator` of `monitor/ebpf/aggregator.py`: one state for each process, with the keys of
the files that its events name. An event is an untyped mapping; a call returns its summary, `none` for an
event without a process id, or the exception of a conversion, with the aggregator as the call left it.

The clock is read once for each event, which is the argument `now`. -/

namespace Elyra.Ebpf

open Elyra.Python Elyra.Correlation Elyra.Counting

structure ProcessTelemetryState (T F : Type) where
  tgid : Int
  executableIdentifier : Json F := .null
  parentPid : Int := 0
  uid : Int := 0
  lastSeenMonotonic : T
  distinctFiles : List PyStr := []
  outboundConnections : Nat := 0
  eventCount : Nat := 0

/-- The arguments of the constructor. -/
structure TelemetryLimits (T : Type) where
  stateTtlSeconds : T
  maxStates : Int
  maxDistinctFilesPerProcess : Int

/-- The answer to an event. -/
structure RuntimeSummary (F : Type) where
  tgid : Int
  distinctFilesModified : Nat
  outboundConnectionAttempts : Nat
  eventCount : Nat
  executableIdentifier : Json F

structure RuntimeTelemetryAggregator (T F : Type) where
  states : Dict Int (ProcessTelemetryState T F) := Dict.empty
  recentEvents : List (Mapping F × RuntimeSummary F) := []

section Operations

variable {T F : Type} [Sub T] [LT T] [DecidableLT T] [FloatNum F]
variable (limits : TelemetryLimits T)

/-- `int(event.get("tgid") or event.get("pid") or 0)` -/
def processId (event : Mapping F) : Except PyExc Int :=
  match (getTruthy event "tgid").or (getTruthy event "pid") with
  | none => .ok 0
  | some v => pyInt v

/-- `event.get("event_type") == name` -/
def hasType (event : Mapping F) (name : PyStr) : Bool :=
  match lookup (py "event_type") event with
  | some (.str s) => decide (s = name)
  | _ => false

/-- The states whose time is over. -/
def telemetryExpired (now : T) (a : RuntimeTelemetryAggregator T F) : List Int :=
  (a.states.items.filter fun kv =>
    decide (limits.stateTtlSeconds < now - kv.2.lastSeenMonotonic)).map Prod.fst

namespace RuntimeTelemetryAggregator

def expire (now : T) (a : RuntimeTelemetryAggregator T F) :
    Nat × RuntimeTelemetryAggregator T F :=
  ((telemetryExpired limits now a).length,
    { a with states := (telemetryExpired limits now a).foldl Dict.pop a.states })

/-- `min(self.states, key=...)`, the first of the least; `none` is the `ValueError` of no state. -/
def leastRecent : List (Int × ProcessTelemetryState T F) → Option Int
  | [] => none
  | kv :: rest =>
      some (rest.foldl
        (fun best kv => if kv.2.lastSeenMonotonic < best.2.lastSeenMonotonic then kv else best) kv).1

/-- The state of a process, which is put in if there is none. -/
def stateFor (now : T) (tgid : Int) (a : RuntimeTelemetryAggregator T F) :
    Except PyExc (ProcessTelemetryState T F) × RuntimeTelemetryAggregator T F :=
  match a.states.get? tgid with
  | some s => (.ok s, a)
  | none =>
      let s : ProcessTelemetryState T F := { tgid := tgid, lastSeenMonotonic := now }
      if limits.maxStates ≤ a.states.size then
        match leastRecent a.states.items with
        | none => (.error .valueError, a)
        | some oldest => (.ok s, { a with states := (a.states.pop oldest).set tgid s })
      else (.ok s, { a with states := a.states.set tgid s })

/-- The effect of mutating the state of a process. -/
def put (a : RuntimeTelemetryAggregator T F) (tgid : Int) (s : ProcessTelemetryState T F) :
    RuntimeTelemetryAggregator T F := { a with states := a.states.set tgid s }

/-- `str(file_key)` of a key that is no falsy value. -/
def fileKeyOf (event : Mapping F) : Option PyStr :=
  (getTruthy event "distinct_file_key").map pyStr

/-- The set of keys after an event; a full one is left as it is. -/
def addFile (event : Mapping F) (files : List PyStr) : List PyStr :=
  if (files.length : Int) < limits.maxDistinctFilesPerProcess then
    insertNew files (fileKeyOf event)
  else files

/-- The fields after `uid`. -/
def observe (event : Mapping F) (s : ProcessTelemetryState T F) : ProcessTelemetryState T F :=
  { s with
    executableIdentifier :=
      if hasType event (py "PROCESS_EXEC") then
        (lookup (py "executable_identifier") event).getD .null
      else s.executableIdentifier
    distinctFiles := addFile limits event s.distinctFiles
    outboundConnections :=
      if hasType event (py "NETWORK_CONNECT") then s.outboundConnections + 1
      else s.outboundConnections }

def summaryOf (tgid : Int) (s : ProcessTelemetryState T F) : RuntimeSummary F where
  tgid := tgid
  distinctFilesModified := s.distinctFiles.length
  outboundConnectionAttempts := s.outboundConnections
  eventCount := s.eventCount
  executableIdentifier := s.executableIdentifier

/-- The part of `ingest` after the conversions. -/
def record (event : Mapping F) (tgid : Int) (s : ProcessTelemetryState T F)
    (a : RuntimeTelemetryAggregator T F) : RuntimeSummary F × RuntimeTelemetryAggregator T F :=
  let s := observe limits event s
  let summary := summaryOf tgid s
  let recent := a.recentEvents ++ [(event, summary)]
  let a : RuntimeTelemetryAggregator T F :=
    { states := a.states.set tgid s
      recentEvents := recent.drop (recent.length - 4096) }
  (summary,
    if hasType event (py "PROCESS_EXIT") then { a with states := a.states.pop tgid } else a)

def ingest (now : T) (event : Mapping F) (a : RuntimeTelemetryAggregator T F) :
    Except PyExc (Option (RuntimeSummary F)) × RuntimeTelemetryAggregator T F :=
  let a := (a.expire limits now).2
  match processId event with
  | .error x => (.error x, a)
  | .ok tgid =>
      if tgid ≤ 0 then (.ok none, a)
      else
        match a.stateFor limits now tgid with
        | (.error x, a) => (.error x, a)
        | (.ok s, a) =>
            let s := { s with lastSeenMonotonic := now, eventCount := s.eventCount + 1 }
            match intOr event "ppid" s.parentPid with
            | .error x => (.error x, a.put tgid s)
            | .ok ppid =>
                let s := { s with parentPid := ppid }
                match intOr event "uid" s.uid with
                | .error x => (.error x, a.put tgid s)
                | .ok uid =>
                    let (summary, a) := record limits event tgid { s with uid := uid } a
                    (.ok (some summary), a)

end RuntimeTelemetryAggregator

end Operations

/-! ## What an event does -/

section Step

variable {T F : Type} [Sub T] [LT T] [DecidableLT T] [FloatNum F]
variable {limits : TelemetryLimits T}

theorem get?_popAll {κ α : Type} [DecidableEq κ] {ks : List κ} {k : κ} (hk : k ∉ ks)
    (d : Dict κ α) : (ks.foldl Dict.pop d).get? k = d.get? k := by
  induction ks generalizing d with
  | nil => rfl
  | cons k' ks ih =>
      obtain ⟨hne, hks⟩ := not_or.1 (List.mem_cons.not.1 hk)
      rw [List.foldl_cons, ih hks, Dict.get?_pop_ne d hne]

namespace RuntimeTelemetryAggregator

/-- A state whose time is not over stays, and none comes. -/
theorem get?_expire {now : T} {a : RuntimeTelemetryAggregator T F} {tgid : Int}
    (h : ∀ s, a.states.get? tgid = some s →
      ¬ limits.stateTtlSeconds < now - s.lastSeenMonotonic) :
    (a.expire limits now).2.states.get? tgid = a.states.get? tgid := by
  refine get?_popAll ?_ _
  intro hmem
  obtain ⟨⟨k, s⟩, hs, rfl⟩ := List.mem_map.1 hmem
  obtain ⟨hs, hover⟩ := List.mem_filter.1 hs
  exact h s (Dict.mem_items.1 hs) (of_decide_eq_true hover)

/-- The state of a process is the one that is there, or has no files. -/
theorem stateFor_spec (hmax : 0 < limits.maxStates) (now : T) (tgid : Int)
    (a : RuntimeTelemetryAggregator T F) : ∃ s a', a.stateFor limits now tgid = (.ok s, a') ∧
      s.distinctFiles = ((a.states.get? tgid).map (·.distinctFiles)).getD [] := by
  unfold stateFor
  cases hget : a.states.get? tgid with
  | some s => exact ⟨s, a, rfl, rfl⟩
  | none =>
      dsimp only
      split
      · next hfull =>
          cases hitems : a.states.items with
          | nil =>
              rw [Dict.size, hitems] at hfull
              exact absurd (lt_of_lt_of_le hmax hfull) (lt_irrefl 0)
          | cons kv rest => exact ⟨_, _, rfl, rfl⟩
      · exact ⟨_, _, rfl, rfl⟩

/-- Below the cap a key that is new is kept. -/
theorem addFile_of_le {event : Mapping F} {files : List PyStr}
    (h : ((insertNew files (fileKeyOf event)).length : Int) ≤ limits.maxDistinctFilesPerProcess) :
    addFile limits event files = insertNew files (fileKeyOf event) := by
  rw [addFile]
  split
  · rfl
  · next hfull => exact (insertNew_of_length_le (by omega)).symm

theorem hasType_record (e : EbpfEvent) (name : PyStr) :
    hasType (e.record : Mapping F) name = decide (e.eventType.name = name) := by
  rw [hasType, lookup_eventType]

theorem lookup_distinctFileKey (e : EbpfEvent) :
    lookup (py "distinct_file_key") (e.record : Mapping F) = some (optText e.distinctFileKey) :=
  rfl

theorem fileKeyOf_record (e : EbpfEvent) :
    fileKeyOf (e.record : Mapping F) = e.distinctFileKey := by
  rw [fileKeyOf, getTruthy, lookup_distinctFileKey]
  unfold EbpfEvent.distinctFileKey
  split
  · have hcolon : py ":" ≠ [] := by decide
    simp [Option.filter, optText, truthy, pyStr, hcolon]
  · rfl

theorem processId_record {e : EbpfEvent} (h : 0 < e.tgid) :
    processId (e.record : Mapping F) = .ok e.tgid := by
  rw [processId, getTruthy_tgid e h]
  rfl

/-- An event of a process that has not run out of time adds its file, and is answered with the count. -/
theorem ingest_spec {now : T} {e : EbpfEvent} {a : RuntimeTelemetryAggregator T F}
    (hmax : 0 < limits.maxStates) (hpos : 0 < e.tgid) (hexit : e.eventType ≠ .processExit)
    (htime : ∀ s, a.states.get? e.tgid = some s →
      ¬ limits.stateTtlSeconds < now - s.lastSeenMonotonic)
    {files : List PyStr}
    (hfiles : ((a.states.get? e.tgid).map (·.distinctFiles)).getD [] = files)
    (hcap : ((insertNew files e.distinctFileKey).length : Int) ≤ limits.maxDistinctFilesPerProcess) :
    ∃ summary s, (a.ingest limits now e.record).1 = .ok (some summary) ∧
      (a.ingest limits now e.record).2.states.get? e.tgid = some s ∧
      s.distinctFiles = insertNew files e.distinctFileKey ∧
      summary.distinctFilesModified = s.distinctFiles.length := by
  obtain ⟨s, a', hstate, hs⟩ := stateFor_spec hmax now e.tgid (a.expire limits now).2
  rw [get?_expire htime, hfiles] at hs
  obtain ⟨⟨ppid, hppid⟩, -, -⟩ := intOr_record (F := F) e s.parentPid
  obtain ⟨-, ⟨uid, huid⟩, -⟩ := intOr_record (F := F) e s.uid
  have hadd : addFile limits (e.record : Mapping F) s.distinctFiles =
      insertNew files e.distinctFileKey := by
    rw [hs, addFile_of_le (by rwa [fileKeyOf_record]), fileKeyOf_record]
  have hname : e.eventType.name ≠ py "PROCESS_EXIT" := by
    revert hexit
    cases e.eventType <;> decide
  simp only [ingest, processId_record hpos, if_neg (not_le.2 (Int.natCast_pos.2 hpos)), hstate, hppid,
    huid, record, hasType_record, decide_eq_false hname]
  exact ⟨_, _, rfl, Dict.get?_set_self .., hadd, rfl⟩

end RuntimeTelemetryAggregator

end Step

end Elyra.Ebpf
