import Mathlib.Algebra.Order.Group.Multiset
import Elyra.Python.Text
import Elyra.Posix.Pool

set_option autoImplicit false

/-! # The Windows monitor

`monitor/windows/controller.py`: events come in on notification threads, take one of a bounded number
of permits and go to an executor, whose jobs give the permits back. A handled event is one thread of
a `Pool`: it goes through `handle_event` and, when it has been submitted, through `_analyze_event`.
Each statement that touches the controller is one action. The analyzer may do anything; an executor
that refuses a job by a `RuntimeError` has not queued it. (A `ThreadPoolExecutor` that fails to start a
thread has: then the job runs as well, and its release is one too many.)

Which paths are in the policy's scope, and what an analysis holds, do not matter here. -/

namespace Elyra.Monitor

open Elyra.Python Elyra.Posix

/-! ## Events and records -/

inductive EventType where
  | fileCreated
  | fileModified
  | fileRenamed
  | fileDeleted
  | processStarted
  | processExited
  | overflow
  deriving DecidableEq, Repr

structure WindowsMonitorEvent where
  eventType : EventType
  path : Option PyStr
  deriving DecidableEq, Repr

def entropyEligibleEventTypes : List EventType := [.fileCreated, .fileModified, .fileRenamed]

/-- `bool(path)` -/
def hasPath : Option PyStr → Bool
  | none | some [] => false
  | some _ => true

def WindowsMonitorEvent.isEntropyEligible (event : WindowsMonitorEvent) : Bool :=
  event.eventType ∈ entropyEligibleEventTypes && hasPath event.path

structure WindowsMonitorPolicy where
  maxPendingEvents : Nat
  maxReportedEvents : Nat
  /-- Whether a path is local, not excluded and under a monitored root. -/
  inScope : PyStr → Bool
  pending_pos : 0 < maxPendingEvents
  reported_pos : 0 < maxReportedEvents

def WindowsMonitorPolicy.shouldMonitor (policy : WindowsMonitorPolicy) : Option PyStr → Bool
  | none | some [] => false
  | some path => policy.inScope path

/-- A record; `A` is the type of analyses. The latency is kept in nanoseconds. -/
structure WindowsMonitorRecord (A : Type) where
  event : WindowsMonitorEvent
  status : PyStr
  analysis : Option A := none
  reason : Option PyStr
  latencyNs : Option Int := none
  deriving DecidableEq

variable {A : Type}

def overflowRecord (event : WindowsMonitorEvent) : WindowsMonitorRecord A where
  event := event
  status := py "RECOVERY_REQUIRED"
  reason := some (py "EVENT_BUFFER_OVERFLOW_RESCAN_RECOMMENDED")

def outOfScopeRecord (event : WindowsMonitorEvent) : WindowsMonitorRecord A where
  event := event
  status := py "IGNORED_OUT_OF_SCOPE"
  reason := some (py "PATH_IS_NOT_IN_LOCAL_MONITOR_POLICY")

def observedRecord (event : WindowsMonitorEvent) : WindowsMonitorRecord A where
  event := event
  status := py "OBSERVED"
  reason := some (py "EVENT_TYPE_DOES_NOT_REQUIRE_STATIC_ANALYSIS")

def droppedRecord (event : WindowsMonitorEvent) : WindowsMonitorRecord A where
  event := event
  status := py "DROPPED_BACKPRESSURE"
  reason := some (py "PENDING_ANALYSIS_LIMIT_REACHED")

def refusedRecord (event : WindowsMonitorEvent) (typeName : PyStr) : WindowsMonitorRecord A where
  event := event
  status := py "ERROR"
  reason := some (py "ANALYSIS_EXECUTOR_UNAVAILABLE:" ++ typeName)

def failedRecord (event : WindowsMonitorEvent) (typeName : PyStr) (latencyNs : Int) :
    WindowsMonitorRecord A where
  event := event
  status := py "ERROR"
  reason := some (py "ANALYSIS_FAILED:" ++ typeName)
  latencyNs := some latencyNs

def analyzedRecord (event : WindowsMonitorEvent) (status : PyStr) (analysis : A)
    (reason : Option PyStr) (latencyNs : Int) : WindowsMonitorRecord A where
  event := event
  status := status
  analysis := some analysis
  reason := reason
  latencyNs := some latencyNs

/-! ## Actions -/

/-- How far an event has come. -/
inductive Phase (A : Type) where
  | entered
  | dropped
  | acquired
  | refused (typeName : PyStr)
  | refusedReleased (typeName : PyStr)
  | queued
  | analyzing (started : Int)
  | failed (typeName : PyStr) (started : Int)
  | finishing (record : WindowsMonitorRecord A)
  | appending (record : WindowsMonitorRecord A)
  | appended
  | done
  /-- `BoundedSemaphore.release` has raised its `ValueError`. -/
  | overReleased

/-- An event that is handled. The records appended for it and the permits it has taken and given back
    are noted for the statements about it. -/
structure Handling (A : Type) where
  event : WindowsMonitorEvent
  phase : Phase A := .entered
  submitted : Bool := false
  records : List (WindowsMonitorRecord A) := []
  acquires : Nat := 0
  releases : Nat := 0

/-- The fields of `WindowsMonitorController`; `log` is every record that has been appended. -/
structure WindowsMonitorController (A : Type) where
  pending : Nat
  records : List (WindowsMonitorRecord A) := []
  droppedBackpressure : Nat := 0
  outOfScope : Nat := 0
  analysisErrors : Nat := 0
  log : List (WindowsMonitorRecord A) := []

/-- `deque.append` under `maxlen`. -/
def appendBounded {α : Type} (maxlen : Nat) (xs : List α) (x : α) : List α :=
  (xs ++ [x]).drop (xs.length + 1 - maxlen)

/-- `self._pending.release()` in a phase, which goes on as `next`. -/
def release (policy : WindowsMonitorPolicy) (c : WindowsMonitorController A) (h : Handling A)
    (next : Phase A) : WindowsMonitorController A × Handling A :=
  if c.pending < policy.maxPendingEvents then
    ({ c with pending := c.pending + 1 }, { h with phase := next, releases := h.releases + 1 })
  else (c, { h with phase := .overReleased })

/-- The first statement of `_append`. -/
def appendRecord (policy : WindowsMonitorPolicy) (c : WindowsMonitorController A)
    (record : WindowsMonitorRecord A) : WindowsMonitorController A :=
  { c with
    records := appendBounded policy.maxReportedEvents c.records record
    log := c.log ++ [record] }

/-- The event is one that the analyzer is to look at. -/
def Analyzable (policy : WindowsMonitorPolicy) (event : WindowsMonitorEvent) : Prop :=
  event.eventType ≠ .overflow ∧ policy.shouldMonitor event.path = true ∧
    event.isEntropyEligible = true

inductive Act (policy : WindowsMonitorPolicy) : WindowsMonitorController A → Handling A →
    WindowsMonitorController A → Handling A → Prop
  -- `handle_event`
  | overflow {c h} : h.phase = .entered → h.event.eventType = .overflow →
      Act policy c h c { h with phase := .appending (overflowRecord h.event) }
  | ignore {c h} : h.phase = .entered → h.event.eventType ≠ .overflow →
      policy.shouldMonitor h.event.path = false →
      Act policy c h { c with outOfScope := c.outOfScope + 1 }
        { h with phase := .appending (outOfScopeRecord h.event) }
  | observe {c h} : h.phase = .entered → h.event.eventType ≠ .overflow →
      policy.shouldMonitor h.event.path = true → h.event.isEntropyEligible = false →
      Act policy c h c { h with phase := .appending (observedRecord h.event) }
  | acquire {c h} : h.phase = .entered → Analyzable policy h.event → 0 < c.pending →
      Act policy c h { c with pending := c.pending - 1 }
        { h with phase := .acquired, acquires := h.acquires + 1 }
  | drop {c h} : h.phase = .entered → Analyzable policy h.event → c.pending = 0 →
      Act policy c h c { h with phase := .dropped }
  | countDropped {c h} : h.phase = .dropped →
      Act policy c h { c with droppedBackpressure := c.droppedBackpressure + 1 }
        { h with phase := .appending (droppedRecord h.event) }
  | submit {c h} : h.phase = .acquired →
      Act policy c h c { h with phase := .queued, submitted := true }
  | refuse {c h} (typeName : PyStr) : h.phase = .acquired →
      Act policy c h c { h with phase := .refused typeName }
  | releaseRefused {c h typeName} : h.phase = .refused typeName →
      Act policy c h (release policy c h (.refusedReleased typeName)).1
        (release policy c h (.refusedReleased typeName)).2
  | countRefused {c h typeName} : h.phase = .refusedReleased typeName →
      Act policy c h { c with analysisErrors := c.analysisErrors + 1 }
        { h with phase := .appending (refusedRecord h.event typeName) }
  -- `_analyze_event`
  | start {c h} (started : Int) : h.phase = .queued →
      Act policy c h c { h with phase := .analyzing started }
  | analyzed {c h started} (status : PyStr) (analysis : A) (reason : Option PyStr) (now : Int) :
      h.phase = .analyzing started →
      Act policy c h c
        { h with phase := .finishing (analyzedRecord h.event status analysis reason (now - started)) }
  | fail {c h started} (typeName : PyStr) : h.phase = .analyzing started →
      Act policy c h c { h with phase := .failed typeName started }
  | countFailed {c h typeName started} (now : Int) : h.phase = .failed typeName started →
      Act policy c h { c with analysisErrors := c.analysisErrors + 1 }
        { h with phase := .finishing (failedRecord h.event typeName (now - started)) }
  | finish {c h record} : h.phase = .finishing record →
      Act policy c h (release policy c h (.appending record)).1
        (release policy c h (.appending record)).2
  -- `_append`
  | append {c h record} : h.phase = .appending record →
      Act policy c h (appendRecord policy c record)
        { h with phase := .appended, records := h.records ++ [record] }
  | sink {c h} : h.phase = .appended → Act policy c h c { h with phase := .done }

/-- A call of `handle_event` begins. -/
def Begins (h : Handling A) : Prop := h = { event := h.event }

/-- A new controller. -/
def initial (policy : WindowsMonitorPolicy) : Pool (WindowsMonitorController A) (Handling A) where
  shared := { pending := policy.maxPendingEvents }
  threads := []

def Reachable (policy : WindowsMonitorPolicy)
    (p : Pool (WindowsMonitorController A) (Handling A)) : Prop :=
  Pool.Runs Begins (Act policy) (initial policy) p

/-! ## One event -/

/-- The record an event may end in. -/
inductive RecordOf (policy : WindowsMonitorPolicy) (event : WindowsMonitorEvent) :
    WindowsMonitorRecord A → Prop
  | overflow : event.eventType = .overflow → RecordOf policy event (overflowRecord event)
  | outOfScope : event.eventType ≠ .overflow → policy.shouldMonitor event.path = false →
      RecordOf policy event (outOfScopeRecord event)
  | observed : event.eventType ≠ .overflow → policy.shouldMonitor event.path = true →
      event.isEntropyEligible = false → RecordOf policy event (observedRecord event)
  | dropped : Analyzable policy event → RecordOf policy event (droppedRecord event)
  | refused (typeName) : Analyzable policy event → RecordOf policy event (refusedRecord event typeName)
  | failed (typeName latencyNs) : Analyzable policy event →
      RecordOf policy event (failedRecord event typeName latencyNs)
  | analyzed (status analysis reason latencyNs) : Analyzable policy event →
      RecordOf policy event (analyzedRecord event status analysis reason latencyNs)

/-- The permits a phase holds. -/
def Phase.held : Phase A → Nat
  | .acquired | .refused _ | .queued | .analyzing _ | .failed _ _ | .finishing _ => 1
  -- a permit that could not be given back
  | .overReleased => 1
  | _ => 0

/-- The record that is to be appended. -/
def Phase.coming : Phase A → Option (WindowsMonitorRecord A)
  | .finishing record | .appending record => some record
  | _ => none

/-- What holds of an event that is handled, whatever the others do. -/
structure Handling.Ok (policy : WindowsMonitorPolicy) (h : Handling A) : Prop where
  permits : h.acquires = h.releases + h.phase.held ∧ h.acquires ≤ 1
  analyzable : match h.phase with
    | .entered | .appending _ | .appended | .done | .overReleased => True
    | _ => Analyzable policy h.event
  coming : ∀ record, h.phase.coming = some record → RecordOf policy h.event record
  records : match h.phase with
    | .appended | .done => ∃ record, h.records = [record] ∧ RecordOf policy h.event record
    | _ => h.records = []
  entered : h.phase = .entered → h.acquires = 0 ∧ h.submitted = false

variable {policy : WindowsMonitorPolicy} {c c' : WindowsMonitorController A} {h h' : Handling A}

theorem Act.ok (ha : Act policy c h c' h') (hok : h.Ok policy) : h'.Ok policy := by
  obtain ⟨⟨hpermits, hone⟩, hanalyzable, hcoming, hrecords, hentered⟩ := hok
  cases ha with
  | overflow hp ht =>
      simp only [hp, Phase.held] at hpermits hrecords
      exact ⟨⟨hpermits, hone⟩, trivial, fun _ h => Option.some.inj h ▸ .overflow ht, hrecords, by simp⟩
  | ignore hp ht hs =>
      simp only [hp, Phase.held] at hpermits hrecords
      exact ⟨⟨hpermits, hone⟩, trivial, fun _ h => Option.some.inj h ▸ .outOfScope ht hs, hrecords,
        by simp⟩
  | observe hp ht hs he =>
      simp only [hp, Phase.held] at hpermits hrecords
      exact ⟨⟨hpermits, hone⟩, trivial, fun _ h => Option.some.inj h ▸ .observed ht hs he, hrecords,
        by simp⟩
  | acquire hp hanalyze _ =>
      simp only [hp, Phase.held] at hpermits hrecords
      have hzero := (hentered hp).1
      exact ⟨⟨by simp only [Phase.held]; omega, by simp only; omega⟩, hanalyze, by simp [Phase.coming],
        hrecords, by simp⟩
  | drop hp hanalyze _ =>
      simp only [hp, Phase.held] at hpermits hrecords
      exact ⟨⟨hpermits, hone⟩, hanalyze, by simp [Phase.coming], hrecords, by simp⟩
  | countDropped hp =>
      simp only [hp, Phase.held] at hpermits hrecords hanalyzable
      exact ⟨⟨hpermits, hone⟩, trivial, fun _ h => Option.some.inj h ▸ .dropped hanalyzable, hrecords,
        by simp⟩
  | submit hp =>
      simp only [hp, Phase.held] at hpermits hrecords hanalyzable
      exact ⟨⟨hpermits, hone⟩, hanalyzable, by simp [Phase.coming], hrecords, by simp⟩
  | refuse typeName hp =>
      simp only [hp, Phase.held] at hpermits hrecords hanalyzable
      exact ⟨⟨hpermits, hone⟩, hanalyzable, by simp [Phase.coming], hrecords, by simp⟩
  | releaseRefused hp =>
      simp only [hp, Phase.held] at hpermits hrecords hanalyzable
      unfold release
      split
      · exact ⟨⟨by simp only [Phase.held]; omega, hone⟩, hanalyzable, by simp [Phase.coming], hrecords,
          by simp⟩
      · exact ⟨⟨hpermits, hone⟩, trivial, by simp [Phase.coming], hrecords, by simp⟩
  | countRefused hp =>
      simp only [hp, Phase.held] at hpermits hrecords hanalyzable
      exact ⟨⟨hpermits, hone⟩, trivial, fun _ h => Option.some.inj h ▸ .refused _ hanalyzable, hrecords,
        by simp⟩
  | start started hp =>
      simp only [hp, Phase.held] at hpermits hrecords hanalyzable
      exact ⟨⟨hpermits, hone⟩, hanalyzable, by simp [Phase.coming], hrecords, by simp⟩
  | analyzed status analysis reason now hp =>
      simp only [hp, Phase.held] at hpermits hrecords hanalyzable
      exact ⟨⟨hpermits, hone⟩, hanalyzable, fun _ h => Option.some.inj h ▸ .analyzed _ _ _ _ hanalyzable,
        hrecords, by simp⟩
  | fail typeName hp =>
      simp only [hp, Phase.held] at hpermits hrecords hanalyzable
      exact ⟨⟨hpermits, hone⟩, hanalyzable, by simp [Phase.coming], hrecords, by simp⟩
  | countFailed now hp =>
      simp only [hp, Phase.held] at hpermits hrecords hanalyzable
      exact ⟨⟨hpermits, hone⟩, hanalyzable, fun _ h => Option.some.inj h ▸ .failed _ _ hanalyzable,
        hrecords, by simp⟩
  | finish hp =>
      have hrecord := hcoming _ (by rw [hp]; rfl)
      simp only [hp, Phase.held] at hpermits hrecords hanalyzable
      unfold release
      split
      · exact ⟨⟨by simp only [Phase.held]; omega, hone⟩, trivial, fun _ h => Option.some.inj h ▸ hrecord,
          hrecords, by simp⟩
      · exact ⟨⟨hpermits, hone⟩, trivial, by simp [Phase.coming], hrecords, by simp⟩
  | @append record hp =>
      simp only [hp, Phase.held] at hpermits hrecords
      refine ⟨⟨hpermits, hone⟩, trivial, by simp [Phase.coming], ⟨record, ?_, ?_⟩, by simp⟩
      · rw [hrecords, List.nil_append]
      · exact hcoming record (by rw [hp]; rfl)
  | sink hp =>
      simp only [hp, Phase.held] at hpermits hrecords
      exact ⟨⟨hpermits, hone⟩, trivial, by simp [Phase.coming], hrecords, by simp⟩

/-! ## Permits and records -/

/-- A permit that is taken from the semaphore is held by the one that has taken it. -/
theorem Act.conserves (ha : Act policy c h c' h') :
    c'.pending + h'.phase.held = c.pending + h.phase.held := by
  cases ha with
  | acquire hp _ hpos =>
      simp only [hp, Phase.held]
      omega
  | releaseRefused hp | finish hp =>
      unfold release
      split
      · simp only [hp, Phase.held]
      · simp only [hp, Phase.held]
  | overflow hp | ignore hp | observe hp | drop hp | countDropped hp | submit hp | refuse _ hp
  | countRefused hp | start _ hp | analyzed _ _ _ _ hp | fail _ hp | countFailed _ hp | sink hp =>
      simp only [hp, Phase.held]
  | append hp => simp only [appendRecord, hp, Phase.held]

/-- What is appended is noted. -/
theorem Act.logs (ha : Act policy c h c' h') :
    (c'.log : Multiset (WindowsMonitorRecord A)) + h.records = c.log + h'.records := by
  cases ha with
  | releaseRefused hp | finish hp => unfold release; split <;> rfl
  | @append record hp =>
      simp only [appendRecord, Multiset.coe_add, Multiset.coe_eq_coe, List.append_assoc]
      exact (List.perm_append_comm).append_left c.log
  | overflow | ignore | observe | acquire | drop | countDropped | submit | refuse | countRefused
  | start | analyzed | fail | countFailed | sink => rfl

theorem drop_append_of_drop {α : Type} (xs : List α) (x : α) (m : Nat) :
    appendBounded m (xs.drop (xs.length - m)) x = (xs ++ [x]).drop (xs.length + 1 - m) := by
  have hle : xs.length - m ≤ xs.length := Nat.sub_le ..
  have happend : xs.drop (xs.length - m) ++ [x] = (xs ++ [x]).drop (xs.length - m) := by
    rw [List.drop_append_of_le_length hle]
  unfold appendBounded
  rw [happend, List.drop_drop, List.length_drop]
  congr 1
  omega

/-- The records that are kept are the last ones. -/
def KeepsLast (policy : WindowsMonitorPolicy) (c : WindowsMonitorController A) : Prop :=
  c.records = c.log.drop (c.log.length - policy.maxReportedEvents)

theorem Act.keepsLast (ha : Act policy c h c' h') (hc : KeepsLast policy c) : KeepsLast policy c' := by
  cases ha with
  | releaseRefused hp | finish hp => unfold release; split <;> exact hc
  | @append record hp =>
      unfold KeepsLast at hc ⊢
      simp only [appendRecord, hc, drop_append_of_drop, List.length_append, List.length_singleton]
  | overflow | ignore | observe | acquire | drop | countDropped | submit | refuse | countRefused
  | start | analyzed | fail | countFailed | sink => exact hc

/-- Only a release without a permit to give back fails. -/
theorem Act.overReleased (ha : Act policy c h c' h') (hp : h'.phase = .overReleased) :
    policy.maxPendingEvents ≤ c.pending ∧ h.phase.held = 1 := by
  cases ha with
  | releaseRefused h | finish h =>
      unfold release at hp
      split at hp
      · exact absurd hp (by simp)
      · next hfull => exact ⟨not_lt.1 hfull, by rw [h]; rfl⟩
  | overflow | ignore | observe | acquire | drop | countDropped | submit | refuse | countRefused
  | start | analyzed | fail | countFailed | append | sink => exact absurd hp (by simp)

/-! ## Progress -/

/-- The number of actions that are left at most. -/
def Phase.rank : Phase A → Nat
  | .entered => 8
  | .acquired => 7
  | .queued => 6
  | .refused _ | .analyzing _ => 5
  | .refusedReleased _ | .failed _ _ => 4
  | .dropped | .finishing _ => 3
  | .appending _ => 2
  | .appended => 1
  | .done | .overReleased => 0

theorem Act.rank_lt (ha : Act policy c h c' h') : h'.phase.rank < h.phase.rank := by
  cases ha with
  | releaseRefused hp | finish hp =>
      unfold release
      split <;> simp [hp, Phase.rank]
  | overflow hp | ignore hp | observe hp | acquire hp | drop hp | countDropped hp | submit hp
  | refuse _ hp | countRefused hp | start _ hp | analyzed _ _ _ _ hp | fail _ hp | countFailed _ hp
  | append hp | sink hp =>
      simp [hp, Phase.rank]

/-- An event that is not done can go on, in every state of the controller. -/
theorem exists_act (c : WindowsMonitorController A) (hdone : h.phase ≠ .done)
    (hover : h.phase ≠ .overReleased) : ∃ c' h', Act policy c h c' h' := by
  cases hp : h.phase with
  | entered =>
      by_cases ht : h.event.eventType = .overflow
      · exact ⟨_, _, .overflow hp ht⟩
      cases hs : policy.shouldMonitor h.event.path with
      | false => exact ⟨_, _, .ignore hp ht hs⟩
      | true =>
      cases he : h.event.isEntropyEligible with
      | false => exact ⟨_, _, .observe hp ht hs he⟩
      | true =>
      rcases Nat.eq_zero_or_pos c.pending with hz | hpos
      · exact ⟨_, _, .drop hp ⟨ht, hs, he⟩ hz⟩
      · exact ⟨_, _, .acquire hp ⟨ht, hs, he⟩ hpos⟩
  | dropped => exact ⟨_, _, .countDropped hp⟩
  | acquired => exact ⟨_, _, .submit hp⟩
  | refused typeName => exact ⟨_, _, .releaseRefused hp⟩
  | refusedReleased typeName => exact ⟨_, _, .countRefused hp⟩
  | queued => exact ⟨_, _, .start 0 hp⟩
  | analyzing started => exact ⟨_, _, .fail [] hp⟩
  | failed typeName started => exact ⟨_, _, .countFailed 0 hp⟩
  | finishing record => exact ⟨_, _, .finish hp⟩
  | appending record => exact ⟨_, _, .append hp⟩
  | appended => exact ⟨_, _, .sink hp⟩
  | done => exact absurd hp hdone
  | overReleased => exact absurd hp hover

/-! ## Every run -/

/-- The permits that are held. -/
def heldPermits (p : Pool (WindowsMonitorController A) (Handling A)) : Nat :=
  (p.threads.map fun h => h.phase.held).sum

variable {p p' : Pool (WindowsMonitorController A) (Handling A)}

theorem begins_ok {h : Handling A} (hb : Begins h) : h.Ok policy := by
  rw [hb]
  exact ⟨⟨rfl, Nat.zero_le _⟩, trivial, by simp [Phase.coming], rfl, fun _ => ⟨rfl, rfl⟩⟩

theorem Reachable.pending (hr : Reachable policy p) :
    p.shared.pending + heldPermits p = policy.maxPendingEvents := by
  have h := Pool.Runs.conserved (f := fun c : WindowsMonitorController A => c.pending)
    (g := fun h : Handling A => h.phase.held) (fun t ht => by rw [ht]; rfl)
    (fun _ _ _ _ ha => ha.conserves) hr
  simpa [heldPermits, initial] using h

theorem Reachable.ok (hr : Reachable policy p) :
    KeepsLast policy p.shared ∧ ∀ h ∈ p.threads, h.Ok policy := by
  refine Pool.Runs.forall (I := KeepsLast policy) (P := fun _ h => h.Ok policy)
    (fun _ _ _ hb => begins_ok hb) (fun _ _ _ _ ha hc hok => ⟨ha.keepsLast hc, ha.ok hok⟩)
    (fun _ _ _ _ _ _ _ _ hu => hu) hr ?_ ?_
  · simp [KeepsLast, initial]
  · simp [initial]

theorem Reachable.log (hr : Reachable policy p) : (p.shared.log : Multiset (WindowsMonitorRecord A)) =
    (p.threads.map fun h => (h.records : Multiset (WindowsMonitorRecord A))).sum := by
  have h := Pool.Runs.matched
    (f := fun c : WindowsMonitorController A => (c.log : Multiset (WindowsMonitorRecord A)))
    (g := fun h : Handling A => (h.records : Multiset (WindowsMonitorRecord A)))
    (fun t ht => by rw [ht]; rfl) (fun _ _ _ _ ha => ha.logs) hr
  simpa [initial] using h

/-- No permit is given back twice. -/
theorem Reachable.not_overReleased (hr : Reachable policy p) :
    ∀ h ∈ p.threads, h.phase ≠ .overReleased := by
  induction hr with
  | refl => simp [initial]
  | tail hr hstep ih =>
      have hpending := Reachable.pending hr
      cases hstep with
      | start hb =>
          intro h hh
          rcases List.mem_append.1 hh with hh | hh
          · exact ih h hh
          · obtain rfl := List.mem_singleton.1 hh
            rw [hb]
            simp
      | @act c c' xs ys t t' ha =>
          intro h hh hp
          have hcases : h = t' ∨ h ∈ xs ++ t :: ys := by
            simp only [List.mem_append, List.mem_cons] at hh ⊢
            tauto
          rcases hcases with rfl | hold
          · obtain ⟨hfull, hheld⟩ := ha.overReleased hp
            simp only [heldPermits, List.map_append, List.map_cons, List.sum_append, List.sum_cons]
              at hpending
            omega
          · exact ih h hold hp

/-- The books of the monitor are right. -/
structure Accounted (policy : WindowsMonitorPolicy)
    (p : Pool (WindowsMonitorController A) (Handling A)) : Prop where
  /-- An event that is done has one record. -/
  one_record : ∀ h ∈ p.threads, h.phase = .done →
    ∃ record, h.records = [record] ∧ RecordOf policy h.event record
  /-- There are no other records, and the last ones are kept. -/
  log : (p.shared.log : Multiset (WindowsMonitorRecord A)) =
    (p.threads.map fun h => (h.records : Multiset (WindowsMonitorRecord A))).sum
  kept : KeepsLast policy p.shared
  /-- Permits are held from the acquisition to the release. -/
  permits : p.shared.pending + heldPermits p = policy.maxPendingEvents
  once : ∀ h ∈ p.threads, h.acquires = h.releases + h.phase.held ∧ h.acquires ≤ 1 ∧
    h.phase ≠ .overReleased
  all_back : (∀ h ∈ p.threads, h.phase = .done) → p.shared.pending = policy.maxPendingEvents
  /-- An event that is not done can go on, and does so finitely often. -/
  finishes : ∀ h ∈ p.threads, h.phase ≠ .done → (∃ c' h', Act policy p.shared h c' h') ∧
    ∀ c c' h', Act policy c h c' h' → h'.phase.rank < h.phase.rank

def samplePolicy : WindowsMonitorPolicy where
  maxPendingEvents := 1
  maxReportedEvents := 1
  inScope := fun _ => true
  pending_pos := by decide
  reported_pos := by decide

def sampleEvent : WindowsMonitorEvent := ⟨.fileModified, some (py "C:\\queued.txt")⟩

/-- A call that has taken the permit and not submitted its job yet. -/
def betweenAcquireAndSubmit : Pool (WindowsMonitorController Unit) (Handling Unit) where
  shared := { pending := 0 }
  threads := [{ event := sampleEvent, phase := .acquired, acquires := 1 }]

theorem betweenAcquireAndSubmit_reachable : Reachable samplePolicy betweenAcquireAndSubmit := by
  have hstart : Pool.Step (Begins (A := Unit)) (Act samplePolicy) (initial samplePolicy)
      ⟨{ pending := 1 }, [] ++ [{ event := sampleEvent }]⟩ :=
    .start rfl
  have hacquire : Act samplePolicy (A := Unit) { pending := 1 } { event := sampleEvent }
      { pending := 0 } { event := sampleEvent, phase := .acquired, acquires := 1 } :=
    .acquire rfl ⟨by decide, rfl, by decide⟩ (by decide)
  exact .tail (.single hstart) (@Pool.Step.act _ _ _ _ _ _ [] [] _ _ hacquire)

/-- The submitted jobs that have not finished. -/
def unfinishedJobs (p : Pool (WindowsMonitorController A) (Handling A)) : Nat :=
  p.threads.countP fun h => h.submitted && h.phase.rank != 0

end Elyra.Monitor
