import Elyra.Fanotify.Reader

set_option autoImplicit false
set_option linter.unusedSectionVars false

/-! # The reader thread

`_event_loop` while the controller runs: the reads of the group one after the other, each an
exception or a batch of parsed events, and each event of a batch with what the world answers while
the reader handles it, with whether `_pending_slots` has a slot left and with what `submit` ends with,
which raises where the executor cannot start a thread. A submitted event is handled by `_handle_event`.

The loop is the only reader of the group, so an exception that leaves it leaves every later event
unread. `_handle_event` catches what the kernel's write raises; `_respond_saturated` does not, and
nothing catches what `submit` raises. -/

namespace Elyra.Fanotify

open Elyra.Python Elyra.Correlation Elyra.Analyzer

variable {T F : Type} [FloatNum F] [Zero T] [Add T] [Sub T] [Min T] [LE T] [DecidableLE T]

/-- An event of a batch, the world it meets, whether `_pending_slots.acquire` gets a slot, and what
    `event_executor.submit` ends with. -/
structure Delivery (T F : Type) where
  event : FanotifyEvent T
  world : World T F
  slotFree : Bool
  submit : Except Exc Unit

inductive Reaction where
  | recorded
  | closed
  | answered
  | submitted
  deriving DecidableEq, Repr

/-- An event the loop has gone past, with the frame of the method it was given to. -/
structure Passed (T F : Type) where
  delivery : Delivery T F
  reaction : Reaction
  frame : Frame F

/-- A call of a method of the reader, with the frame it leaves. -/
def called (x : Py (Frame F) Unit) : Except Exc (Frame F) :=
  match x Frame.new with
  | .ok _ frame => .ok frame
  | .error exc _ => .error exc

/-- The body of the inner loop of `_event_loop`. -/
def reactTo (p : FanotifyPolicy T) (d : Delivery T F) : Except Exc (Passed T F) :=
  if d.event.isOverflow then
    (called (recordOverflow d.world d.event)).map (⟨d, .recorded, ·⟩)
  else if !d.event.isExecPermission then
    .ok ⟨d, .closed, Frame.new⟩
  else if !d.slotFree then
    (called (respondSaturated d.world d.event)).map (⟨d, .answered, ·⟩)
  else
    d.submit.map fun _ => ⟨d, .submitted, Py.final (handleEvent p d.world d.event) Frame.new⟩

/-- `for event in events`; the state is the list of the events gone past. -/
def processBatch (p : FanotifyPolicy T) : List (Delivery T F) → Py (List (Passed T F)) Unit
  | [] => pure ()
  | d :: events => do
      let handled ← Py.eval (reactTo p d)
      modify (· ++ [handled])
      processBatch p events

/-- `_event_loop`, for the reads the controller makes before it is stopped. -/
def eventLoop (p : FanotifyPolicy T) :
    List (Except Exc (List (Delivery T F))) → Py (List (Passed T F)) Unit
  | [] => pure ()
  | .error exc :: reads => if exc.isIn [.osError] then eventLoop p reads else throw exc
  | .ok events :: reads => do
      processBatch p events
      eventLoop p reads

/-! ## What becomes of an event -/

/-- The descriptor of the event does not stay open: there is none, it was closed, or a response was
    made for it, which closes it however the write ends. -/
def Passed.Released (h : Passed T F) : Prop :=
  match h.reaction with
  | .recorded => h.delivery.event.fd < 0
  | .closed => True
  | .answered | .submitted =>
      ∃ r ∈ h.frame.responses, r.fd = h.delivery.event.fd ∧ (r.value = fanDeny ∨ r.value = fanAllow)

/-- What the reader relies on: an overflow carries no descriptor, the write of a saturated response does
    not raise, the audit logger raises only what `_emit_record` catches, and the executor takes an event
    that found a slot. -/
def Delivery.Fine (d : Delivery T F) : Prop :=
  if d.event.isOverflow then
    d.event.fd < 0 ∧ survives (d.world.audit 0) = true
  else if !d.event.isExecPermission then True
  else if !d.slotFree then
    (d.world.groupFd < 0 ∨ (d.world.write 0).isOk = true) ∧ survives (d.world.audit 0) = true
  else d.submit.isOk = true

/-- A method that is called and then noted, and what holds of the note. -/
theorem called_map_iff (x : Py (Frame F) Unit) (f : Frame F → Passed T F)
    (Q : Passed T F → Prop) :
    (∃ h, (called x).map f = .ok h ∧ Q h) ↔
      (Py.raised x Frame.new).isNone = true ∧ Q (f (Py.final x Frame.new)) := by
  unfold called Py.raised Py.final
  cases x Frame.new with
  | ok u frame =>
      constructor
      · rintro ⟨h, hok, hQ⟩
        cases hok
        exact ⟨rfl, hQ⟩
      · rintro ⟨-, hQ⟩
        exact ⟨_, rfl, hQ⟩
  | error exc frame =>
      constructor
      · rintro ⟨h, hok, -⟩
        cases hok
      · rintro ⟨h, -⟩
        cases h

theorem isExecPermission_fd {event : FanotifyEvent T} (h : event.isExecPermission = true) :
    0 ≤ event.fd := by
  unfold FanotifyEvent.isExecPermission at h
  rw [Bool.and_eq_true, decide_eq_true_eq] at h
  exact h.2

theorem emitRecord_responses (w : World T F) (s : Frame F) :
    (Py.final (emitRecord w) s).responses = s.responses := by
  obtain ⟨queued, hfinal⟩ := emitRecord_final w s
  rw [hfinal]

/-- A saturated response that leaves the method has been made. -/
theorem respondSaturated_responses {w : World T F} (event : FanotifyEvent T)
    (hwrite : w.groupFd < 0 ∨ (w.write 0).isOk = true) :
    ∃ sent, (Py.final (respondSaturated w event) Frame.new).responses =
      [⟨event.fd, fanAllow, .ok sent⟩] := by
  obtain ⟨sent, hsent⟩ := respondResult_allow event.fd hwrite
  have hrun := respondSaturated_run w event
  rw [hsent] at hrun
  refine ⟨sent, ?_⟩
  unfold Py.final
  rw [hrun]
  exact emitRecord_responses w _

/-- The method raises when the write does. -/
theorem respondSaturated_raises {w : World T F} {event : FanotifyEvent T}
    (hfd : 0 ≤ event.fd) (hwrite : ¬ (w.groupFd < 0 ∨ (w.write 0).isOk = true)) :
    (Py.raised (respondSaturated w event) Frame.new).isNone = false := by
  obtain ⟨hgroup, herror⟩ := not_or.1 hwrite
  have hrun := respondSaturated_run w event
  cases hw : w.write 0 with
  | ok n =>
      rw [hw] at herror
      exact absurd rfl herror
  | error text =>
      have hresult : respondResult w.groupFd (w.write 0) event.fd fanAllow =
          .error ⟨.osError, text⟩ := by
        unfold respondResult
        rw [if_neg (by omega), if_neg (by decide), if_neg hgroup, hw]
      rw [hresult] at hrun
      unfold Py.raised
      rw [hrun]
      rfl

/-- One event: the loop gets past it with its descriptor released exactly when it is fine. -/
theorem reactTo_iff (p : FanotifyPolicy T) (d : Delivery T F) :
    (∃ h, reactTo p d = .ok h ∧ h.delivery = d ∧ h.Released) ↔ d.Fine := by
  unfold reactTo Delivery.Fine
  by_cases hover : d.event.isOverflow = true
  · simp only [hover, if_true]
    rw [called_map_iff, (recordOverflow_emitsOne d.world d.event).2]
    constructor
    · rintro ⟨hsurvives, -, hfd⟩
      exact ⟨hfd, hsurvives⟩
    · rintro ⟨hfd, hsurvives⟩
      exact ⟨hsurvives, rfl, hfd⟩
  · simp only [hover, Bool.false_eq_true, if_false]
    by_cases hperm : d.event.isExecPermission = true
    · simp only [hperm, Bool.not_true, Bool.false_eq_true, if_false]
      by_cases hslot : d.slotFree = true
      · simp only [hslot, Bool.not_true, Bool.false_eq_true, if_false]
        cases hsubmit : d.submit with
        | error exc =>
            refine iff_of_false ?_ Bool.false_ne_true
            rintro ⟨h, hok, -⟩
            cases hok
        | ok u =>
            obtain ⟨r, record, hresponses, -, hfd, hvalue, -⟩ :=
              handleEvent_response p d.world d.event
            refine iff_of_true ⟨_, rfl, rfl, r, ?_, hfd, hvalue⟩ rfl
            rw [hresponses]
            exact List.mem_singleton_self r
      · simp only [hslot, Bool.not_false, if_true]
        rw [called_map_iff]
        by_cases hwrite : d.world.groupFd < 0 ∨ (d.world.write 0).isOk = true
        · rw [(respondSaturated_emitsOne d.event hwrite).2]
          obtain ⟨sent, hresponses⟩ := respondSaturated_responses d.event hwrite
          constructor
          · rintro ⟨hsurvives, -⟩
            exact ⟨hwrite, hsurvives⟩
          · rintro ⟨-, hsurvives⟩
            refine ⟨hsurvives, rfl, ⟨d.event.fd, fanAllow, .ok sent⟩, ?_, rfl, .inr rfl⟩
            rw [hresponses]
            exact List.mem_singleton_self _
        · rw [respondSaturated_raises (isExecPermission_fd hperm) hwrite]
          refine iff_of_false ?_ fun h => hwrite h.1
          rintro ⟨h, -⟩
          cases h
    · simp only [hperm, Bool.not_false, if_true, iff_true]
      exact ⟨_, rfl, rfl, trivial⟩

theorem reactTo_delivery {p : FanotifyPolicy T} {d : Delivery T F} {h : Passed T F}
    (hok : reactTo p d = .ok h) : h.delivery = d := by
  unfold reactTo at hok
  split at hok
  · have hcall : ∃ h', (called (recordOverflow d.world d.event)).map (⟨d, .recorded, ·⟩) =
        .ok h' ∧ h' = h := ⟨h, hok, rfl⟩
    rw [called_map_iff] at hcall
    rw [← hcall.2]
  · split at hok
    · cases hok
      rfl
    · split at hok
      · have hcall : ∃ h', (called (respondSaturated d.world d.event)).map (⟨d, .answered, ·⟩) =
            .ok h' ∧ h' = h := ⟨h, hok, rfl⟩
        rw [called_map_iff] at hcall
        rw [← hcall.2]
      · obtain ⟨u, -, rfl⟩ := map_eq_ok hok
        rfl

/-! ## Batches and reads -/

theorem processBatch_cons (p : FanotifyPolicy T) (d : Delivery T F) (events : List (Delivery T F))
    (log : List (Passed T F)) :
    processBatch p (d :: events) log =
      match reactTo p d with
      | .error exc => .error exc log
      | .ok h => processBatch p events (log ++ [h]) := by
  rw [processBatch]
  unfold Py.eval
  simp only [bind, EStateM.bind]
  cases reactTo p d with
  | error exc => rfl
  | ok h => rfl

/-- A batch that ends is gone past event by event. -/
theorem processBatch_ok_iff (p : FanotifyPolicy T) (events : List (Delivery T F))
    (log log' : List (Passed T F)) :
    processBatch p events log = .ok () log' ↔
      ∃ hs, log' = log ++ hs ∧ List.Forall₂ (fun d h => reactTo p d = .ok h) events hs := by
  induction events generalizing log with
  | nil =>
      constructor
      · intro h
        cases h
        exact ⟨[], (List.append_nil _).symm, .nil⟩
      · rintro ⟨hs, rfl, hall⟩
        cases hall
        rw [List.append_nil]
        rfl
  | cons d events ih =>
      rw [processBatch_cons]
      cases hreact : reactTo p d with
      | error exc =>
          refine iff_of_false nofun ?_
          rintro ⟨hs, -, hall⟩
          cases hall with
          | cons h _ =>
              rw [hreact] at h
              cases h
      | ok h =>
          dsimp only
          rw [ih]
          constructor
          · rintro ⟨hs, rfl, hall⟩
            exact ⟨h :: hs, List.append_assoc .., .cons hreact hall⟩
          · rintro ⟨hs, rfl, hall⟩
            cases hall with
            | @cons _ h' _ hs hhead hall =>
                rw [hreact] at hhead
                cases hhead
                refine ⟨hs, ?_, hall⟩
                rw [List.append_assoc, List.singleton_append]

/-- The events of the reads that end with a batch, in order. -/
def delivered (reads : List (Except Exc (List (Delivery T F)))) : List (Delivery T F) :=
  reads.flatMap fun read => read.toOption.getD []

/-- A run that ends met no read error but an `OSError`, and went past every event in order. -/
theorem eventLoop_ok_iff (p : FanotifyPolicy T) (reads : List (Except Exc (List (Delivery T F))))
    (log log' : List (Passed T F)) :
    eventLoop p reads log = .ok () log' ↔
      (∀ exc, .error exc ∈ reads → exc.isIn [.osError] = true) ∧
        ∃ hs, log' = log ++ hs ∧
          List.Forall₂ (fun d h => reactTo p d = .ok h) (delivered reads) hs := by
  induction reads generalizing log with
  | nil =>
      constructor
      · intro h
        cases h
        exact ⟨nofun, [], (List.append_nil _).symm, .nil⟩
      · rintro ⟨-, hs, rfl, hall⟩
        cases hall
        rw [List.append_nil]
        rfl
  | cons read reads ih =>
      cases read with
      | error exc =>
          have hdelivered : delivered (.error exc :: reads) = delivered reads := rfl
          rw [eventLoop, hdelivered]
          by_cases hos : exc.isIn [.osError] = true
          · rw [if_pos hos, ih]
            refine and_congr_left fun _ => ⟨?_, fun h e he => h e (.tail _ he)⟩
            rintro h e he
            cases he with
            | head => exact hos
            | tail _ he => exact h e he
          · rw [if_neg hos]
            refine iff_of_false nofun ?_
            rintro ⟨h, -⟩
            exact hos (h exc (.head _))
      | ok events =>
          have hdelivered : delivered (.ok events :: reads) = events ++ delivered reads := rfl
          have herrors : (∀ exc, .error exc ∈ Except.ok events :: reads →
                exc.isIn [.osError] = true) ↔
              ∀ exc, .error exc ∈ reads → exc.isIn [.osError] = true := by
            simp
          rw [hdelivered, herrors]
          have hbind : eventLoop p (.ok events :: reads) log = .ok () log' ↔
              ∃ mid, processBatch p events log = .ok () mid ∧
                eventLoop p reads mid = .ok () log' := by
            rw [eventLoop]
            simp only [bind, EStateM.bind]
            cases processBatch p events log with
            | ok u mid => simp
            | error exc mid => simp
          rw [hbind]
          constructor
          · rintro ⟨mid, hbatch, hrest⟩
            obtain ⟨hs, rfl, hall⟩ := (processBatch_ok_iff ..).1 hbatch
            obtain ⟨hfine, hs', rfl, hall'⟩ := (ih _).1 hrest
            exact ⟨hfine, hs ++ hs', List.append_assoc .., List.rel_append hall hall'⟩
          · rintro ⟨hfine, hs, rfl, hall⟩
            have hbatch := (List.forall₂_take_append hs events (delivered reads) hall.flip).flip
            have hrest := (List.forall₂_drop_append hs events (delivered reads) hall.flip).flip
            refine ⟨_, (processBatch_ok_iff ..).2 ⟨_, rfl, hbatch⟩, ?_⟩
            refine (ih _).2 ⟨hfine, _, ?_, hrest⟩
            rw [List.append_assoc, List.take_append_drop]

/-- Events that are all gone past, with their descriptors released. -/
theorem released_iff (p : FanotifyPolicy T) (ds : List (Delivery T F)) :
    (∃ hs, List.Forall₂ (fun d h => reactTo p d = .ok h) ds hs ∧ ∀ h ∈ hs, h.Released) ↔
      ∀ d ∈ ds, d.Fine := by
  induction ds with
  | nil => exact iff_of_true ⟨[], .nil, List.forall_mem_nil _⟩ (List.forall_mem_nil _)
  | cons d ds ih =>
      rw [List.forall_mem_cons]
      have hhead := reactTo_iff p d
      generalize d.Fine = fine at hhead
      rw [← hhead, ← ih]
      constructor
      · rintro ⟨hs, hall, hreleased⟩
        cases hall with
        | @cons _ h _ hs hh hall =>
            rw [List.forall_mem_cons] at hreleased
            exact ⟨⟨h, hh, reactTo_delivery hh, hreleased.1⟩, hs, hall, hreleased.2⟩
      · rintro ⟨⟨h, hh, -, hreleased⟩, hs, hall, hrest⟩
        exact ⟨h :: hs, .cons hh hall, List.forall_mem_cons.2 ⟨hreleased, hrest⟩⟩

theorem deliveries_of_forall₂ {p : FanotifyPolicy T} {ds : List (Delivery T F)}
    {hs : List (Passed T F)} (h : List.Forall₂ (fun d h => reactTo p d = .ok h) ds hs) :
    hs.map Passed.delivery = ds := by
  induction h with
  | nil => rfl
  | cons hhead _ ih => rw [List.map_cons, reactTo_delivery hhead, ih]

/-! ## The reader survives -/

/-- The loop goes on after every read it made, it went past every event of every batch in order, and
    the descriptor of none of them stays open. -/
structure Serves (p : FanotifyPolicy T) (reads : List (Except Exc (List (Delivery T F)))) :
    Prop where
  goesOn : Py.raised (eventLoop p reads) [] = none
  every : (Py.final (eventLoop p reads) []).map Passed.delivery = delivered reads
  released : ∀ h ∈ Py.final (eventLoop p reads) [], h.Released

/-- **The reader survives its reads** exactly when a read raises nothing but an `OSError` and every
    event is fine: no overflow carries a descriptor, no event that finds the slots taken meets an
    `OSError` of the write, the audit logger raises nothing that `_emit_record` lets through, and
    `submit` raises nothing. -/
theorem reader_survives_iff (p : FanotifyPolicy T)
    (reads : List (Except Exc (List (Delivery T F)))) :
    Serves p reads ↔
      (∀ exc, .error exc ∈ reads → exc.isIn [.osError] = true) ∧
        ∀ d ∈ delivered reads, d.Fine := by
  rw [← released_iff p (delivered reads)]
  constructor
  · rintro ⟨hgoes, -, hreleased⟩
    unfold Py.raised at hgoes
    unfold Py.final at hreleased
    cases hrun : eventLoop p reads [] with
    | error exc log =>
        rw [hrun] at hgoes
        cases hgoes
    | ok u log =>
        rw [hrun] at hreleased
        obtain ⟨herrors, hs, hlog, hall⟩ := (eventLoop_ok_iff p reads [] log).1 hrun
        rw [List.nil_append] at hlog
        subst hlog
        exact ⟨herrors, _, hall, hreleased⟩
  · rintro ⟨herrors, hs, hall, hreleased⟩
    have hrun : eventLoop p reads [] = .ok () hs :=
      (eventLoop_ok_iff p reads [] hs).2 ⟨herrors, hs, rfl, hall⟩
    have hfinal := Py.final_of_ok hrun
    refine ⟨?_, ?_, ?_⟩
    · unfold Py.raised
      rw [hrun]
    · rw [hfinal]
      exact deliveries_of_forall₂ hall
    · rw [hfinal]
      exact hreleased

/-- An event that finds no slot, while the write to the group raises, and an event after it. -/
def unluckyBatch : List (Delivery ℤ SampleFloat) :=
  [⟨tmpEvent, denyingWorld (.error (py "ENOENT")), false, .ok ()⟩,
    ⟨{ tmpEvent with fd := 6 }, denyingWorld (.ok responseSize), true, .ok ()⟩]

/-- The exception of the write ends the reader, and the second event is never looked at. -/
theorem unlucky_batch_ends_reader :
    Py.raised (eventLoop tmpPolicy [.ok unluckyBatch]) [] = some ⟨.osError, py "ENOENT"⟩ ∧
      (Py.final (eventLoop tmpPolicy [.ok unluckyBatch]) []).map Passed.delivery = [] ∧
      ¬ Serves tmpPolicy [.ok unluckyBatch] := by
  have hrun : eventLoop tmpPolicy [.ok unluckyBatch] [] = .error ⟨.osError, py "ENOENT"⟩ [] := by
    rfl
  refine ⟨?_, ?_, ?_⟩
  · unfold Py.raised
    rw [hrun]
  · rw [Py.final_of_error hrun]
    rfl
  · rintro ⟨hgoes, -, -⟩
    unfold Py.raised at hgoes
    rw [hrun] at hgoes
    cases hgoes

end Elyra.Fanotify
