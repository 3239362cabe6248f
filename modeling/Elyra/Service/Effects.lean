import Elyra.Audit.Failure
import Elyra.Audit.Payload
import Elyra.Posix.Environment
import Elyra.Quarantine.Consistent
import Elyra.Service.Handler
import Elyra.Service.IpcClient

set_option autoImplicit false
set_option linter.unusedSectionVars false

/-! # What a response says about the state

A sensitive request whose response is an error is to have changed nothing, and one whose response is a
result is to have done what it asks for, and to have been recorded. The handlers commit before they
record, and a result may be too long for the response, so a request that takes effect is answered
truthfully if and only if its result is recorded and fits into the response. One that raises is undone,
unless the kernel fails where nothing can be undone: in the `fsync` of a deletion, in the rollbacks, and
in `fstat` on a restored file whose identity the rollback would go by (`Calm`). -/

namespace Elyra.Service

open Elyra.Python Elyra.Posix Elyra.Posix.Program Elyra.Quarantine Elyra.Fanotify
open Elyra.Audit (Interpreter HexDigest recordPayload safePayload recordPayload_ok safePayload_lookup
  record_ok prepare_ok appendEffects applyAll encodeLine tailState)

variable {R F : Type} [FloatNum F]

/-! ## What a request asks for -/

/-- The item a request names. -/
def RequestMessage.item (q : RequestMessage F) : Json F := .str (textParam q.params (py "quarantine_id"))

/-- The request restores this item, if the kernel lets it: the place is free, and the payload is what the
    record tells of. -/
structure Restorable (m : Manager) (f : Files Path) (q : RequestMessage F) (id : PyStr)
    (r : QuarantineRecord F) (target : Path) : Prop where
  action : q.action = .restoreFile
  loaded : ∃ j, Loaded m f q.item id j r
  live : hasStatus r (py "deleted") = false
  leads : restoreTarget m (destinationOf q.params) r.originalPath = some target
  free : f.names target = none
  payload : ∃ k, f.names (m.payloadPath id) = some k ∧
    describes r (sha256 (f.nodes k).bytes) (f.nodes k).bytes.length = true

/-- The request deletes this item, if the kernel lets it. -/
structure Deletable (m : Manager) (f : Files Path) (q : RequestMessage F) (id : PyStr)
    (r : QuarantineRecord F) : Prop where
  action : q.action = .deletePermanently
  loaded : ∃ j, Loaded m f q.item id j r
  live : hasStatus r (py "deleted") = false
  payload : ∃ k, f.names (m.payloadPath id) = some k
  pending : f.names (m.deletePending id) = none

/-- A restoration of the item puts the file there. -/
def RestoresTo (m : Manager) (f : Files Path) (q : RequestMessage F) (target : Path) : Prop :=
  q.action = .restoreFile ∧ ∃ id j r, Loaded m f q.item id j r ∧
    restoreTarget m (destinationOf q.params) r.originalPath = some target

/-- The mode, the records, the payloads and the restore destination are those from before. -/
structure Unaltered (m : Manager) (q : RequestMessage F) (s s' : Shared R) : Prop where
  mode : s'.mode = s.mode
  store : AsBefore F m s.files s'.files
  destination : ∀ target, RestoresTo m s.files q target →
    s'.files.names target = s.files.names target ∧
      ∀ i, s.files.names target = some i → (s.files.nodes i).Same (s'.files.nodes i)

/-- The record of the item has this status. -/
def ItemHas (F : Type) [FloatNum F] (m : Manager) (f : Files Path) (id status : PyStr) : Prop :=
  ∃ j, ∃ r : QuarantineRecord F, f.names (m.metadataPath id) = some j ∧
    decodeRecord m.str id (f.nodes j).bytes = .ok r ∧ r.restorationStatus = .str status

/-- The requested state holds. -/
def Granted (m : Manager) (q : RequestMessage F) (s s' : Shared R) : Prop :=
  match q.action with
  | .restoreFile => ∃ id j target i, ∃ r : QuarantineRecord F, Loaded m s.files q.item id j r ∧
      restoreTarget m (destinationOf q.params) r.originalPath = some target ∧
      s'.files.names target = some i ∧ (s'.files.nodes i).kind = .regular ∧
      describes r (sha256 (s'.files.nodes i).bytes) (s'.files.nodes i).bytes.length = true ∧
      ItemHas F m s'.files id (py "restored")
  | .deletePermanently => ∃ id j, ∃ r : QuarantineRecord F, Loaded m s.files q.item id j r ∧
      ItemHas F m s'.files id (py "deleted") ∧ Gone m s'.files id
  | .updateEnforcementPolicy => setMode (textParam q.params (py "mode")) = some s'.mode
  | _ => True

/-! ## The audit log -/

/-- A call of `record`, which returns or raises. -/
inductive LogStep (I : Interpreter F) (H : HexDigest) (l l' : Audit.Logger × Audit.Dir) : Prop
  | returned {stamp : Audit.Stamp F} {source subject hash : PyStr} {payload : List (Key × PyValue F)}
      (h : recordPayload I H l.1 l.2 (.ok stamp) source subject payload = (.ok hash, l'))
  | raised {stamp : Except PyExc (Audit.Stamp F)} {input : Audit.RecordInput F} {done : List Audit.Effect}
      (h : Audit.Failed H l.1 l.2 stamp input done l'.1 l'.2)

/-- The log of the daemon; `audit_log.record` is the audit logger's, and nothing else writes to it. Where
    the payload cannot be made, the logger is not called. -/
structure World.Logs (w : World R F) (I : Interpreter F) (H : HexDigest)
    (log : R → Audit.Logger × Audit.Dir) : Prop where
  record : ∀ source subject payload rest rest', w.record source subject payload rest = (.ok (), rest') →
    ∃ stamp hash, recordPayload I H (log rest).1 (log rest).2 (.ok stamp) source subject
      (ofJsonMembers payload) = (.ok hash, log rest')
  raises : ∀ source subject payload rest e rest',
    w.record source subject payload rest = (.error e, rest') → log rest' = log rest ∨
      ∃ stamp input done, Audit.Failed (F := F) H (log rest).1 (log rest).2 stamp input done (log rest').1
        (log rest').2
  noteEvent : ∀ event rest, log (w.noteEvent event rest) = log rest

/-- The log `l'` is `l` with one more record at its end, which has the next number and this text in its
    payload. -/
def Appends (F : Type) [FloatNum F] (l l' : Audit.Logger × Audit.Dir) (source key text : PyStr) : Prop :=
  ∃ (last : PyStr) (n : Int) (before line : Bytes) (entry payload : Mapping F),
    tailState F l.1 l.2 = .ok (last, n) ∧ encodeLine entry = .ok line ∧
    l'.2.files.get? l'.1.config.fileName = some (before ++ line) ∧
    lookup (py "sequence") entry = some (.int (n + 1)) ∧
    lookup (py "source") entry = some (.str source) ∧
    lookup (py "payload") entry = some (.obj payload) ∧ lookup key payload = some (.str text)

/-- Between the two states the log has grown, the record of the request last: the record of the new mode,
    or of the result of the action. -/
def Logged (w : World R F) (I : Interpreter F) (H : HexDigest) (log : R → Audit.Logger × Audit.Dir)
    (q : RequestMessage F) (before after : R) : Prop :=
  ∃ l, Relation.ReflTransGen (LogStep I H) (log before) l ∧
    match q.action with
    | .updateEnforcementPolicy =>
        Appends F l (log after) (py "policy") (py "new_mode") (textParam q.params (py "mode"))
    | _ => Appends F l (log after) (py "response") (py "action_id") w.stamp.actionId

/-- The response, if one is sent, means what it says. -/
structure Truthful (w : World R F) (I : Interpreter F) (H : HexDigest) (log : R → Audit.Logger × Audit.Dir)
    (q : RequestMessage F) (s : Shared R) (out : Except LineExc (Response F) × Shared R) : Prop where
  error : ∀ response e, out.1 = .ok response → (delivered response).outcome = .error e →
    Unaltered w.manager q s out.2
  ok : ∀ response result, out.1 = .ok response → (delivered response).outcome = .ok result →
    Granted w.manager q s out.2 ∧ Logged w I H log q s.rest out.2.rest

/-! ## What a request meets -/

/-- Nobody else is at work, `fstat` does not fail on a file that has just been created, and the clock
    shows what the kernel answers. -/
def alone (w : World R F) : Storm where
  clock text := ∃ n time f f', w.kernel n (.utcIso time) f = (.ok text, f')

/-- The answers of the kernel. Of the calls of a restoration any number may fail outside of its rollback,
    of those of a deletion one, but not the `fsync` after it. -/
def KernelSound (w : World R F) (uuid : PyStr) (q : RequestMessage F) (f : Files Path) : Prop :=
  match q.action with
  | .restoreFile => Weathers (stormy (alone w) uuid) (machine uuid fun _ _ => True) Weather.files w.kernel
      (restoreFile w.manager q.item (destinationOf q.params)) 0 ⟨f, false⟩
  | .deletePermanently => Meets (machine uuid (Operation.delete uuid q.item).recovers) w.kernel
      (deletePermanently w.manager q.item) .once 0 f
  | _ => True

/-- What has been done can be undone: no call of the kernel fails where it could not, and the record of an
    item that is changed nests no deeper than `room` and can be written again. -/
structure Calm (w : World R F) (room : Nat) (uuid : PyStr) (q : RequestMessage F) (s : Shared R) :
    Prop where
  wf : s.files.WF
  kernel : KernelSound w uuid q s.files
  restored : ∀ id r target, Restorable w.manager s.files q id r target →
    (Json.obj r.toDict).depth ≤ room ∧ ¬ Irrevocable (MarksRestored (alone w) r target) r
  deleted : ∀ id r, Deletable w.manager s.files q id r →
    (Json.obj r.toDict).depth ≤ room ∧ ¬ Irrevocable (MarksDeleted r) r ∧
    ∀ k, s.files.names (w.manager.payloadPath id) = some k → (s.files.nodes k).kind ≠ .directory
  /-- What is marked as deleted is gone. -/
  gone : q.action = .deletePermanently → ∀ id j (r : QuarantineRecord F),
    Loaded w.manager s.files q.item id j r → hasStatus r (py "deleted") = true → Gone w.manager s.files id

/-- The request changes something: the manager's call returns a changed item, or the mode is another. -/
def TakesEffect (w : World R F) (q : RequestMessage F) (s : Shared R) : Prop :=
  match q.action with
  | .restoreFile => ∃ r f,
      (restoreFile w.manager q.item (destinationOf q.params)).execute w.kernel 0 s.files = (.ok r, f)
  | .deletePermanently => ∃ r f,
      (deletePermanently w.manager q.item).execute w.kernel 0 s.files = (.ok (some r), f)
  | .updateEnforcementPolicy => ∃ mode, setMode (textParam q.params (py "mode")) = some mode ∧ mode ≠ s.mode
  | _ => False

/-- The response with the result can be sent. -/
def Fits (q : RequestMessage F) (result : Json F) : Prop :=
  ∃ data, encodeJsonLine (successResponse q.requestId result).toJson maxResponseBytes = .ok data

/-- The handler returns, and its result can be sent. -/
def Answered (db : Accounts) (w : World R F) (r : Requester) (q : RequestMessage F) (s : Shared R) : Prop :=
  ∃ result s', handleIpcAction db w q.action q.params r s = (.ok result, s') ∧ Fits q result

/-! ## The record of a success -/

/-- What `restore` reports. -/
def restoredReport (actor : PyStr) (r : QuarantineRecord F) : Response.Report F where
  requested := py "RESTORE"
  executed := py "RESTORE"
  status := .succeeded
  reason := py "An authorised quarantine restoration completed"
  details := [(py "actor", .str actor), (py "quarantine_record", .obj r.toDict)]
  failure := none

/-- What `delete_permanently` reports. -/
def deletedReport (actor id : PyStr) : Response.Report F where
  requested := py "DELETE_PERMANENTLY"
  executed := py "DELETE_PERMANENTLY"
  status := .succeeded
  reason := py "An authorised permanent quarantine deletion completed"
  details := [(py "actor", .str actor), (py "quarantine_id", .str id)]
  failure := none

/-- The report is recorded as this result. -/
def World.Records (w : World R F) (action subject : PyStr) (pid : Int) (report : Response.Report F)
    (rest : R) (result : Response.ActionResult F) : Prop :=
  Response.result w.stamp (synthetic action pid) report = .ok result ∧
    ∃ rest', w.record (py "response") subject result.toDict rest = (.ok (), rest')

/-- What is changed is recorded, and the result fits into the response: for a restored item with any time
    that the clock can show. -/
def Recorded (db : Accounts) (w : World R F) (r : Requester) (q : RequestMessage F) (s : Shared R) : Prop :=
  match q.action with
  | .restoreFile => ∀ id item target item', Restorable w.manager s.files q id item target →
      MarksRestored (alone w) item target item' →
      ∃ result, w.Records (py "RESTORE") (py "restore") r.pid (restoredReport (r.username db) item')
          (auditQuarantine w (textOf item'.restoredPath)
            ((py "action", .str (py "restore")) :: item'.toDict) s.rest) result ∧
        Fits q (.obj (item'.toDict ++ [(py "response_action", .obj result.toDict)]))
  | .deletePermanently => ∀ id item item', Deletable w.manager s.files q id item →
      MarksDeleted item item' →
      ∃ result, w.Records (py "DELETE_PERMANENTLY") (py "delete_permanently") r.pid
          (deletedReport (r.username db) (textParam q.params (py "quarantine_id")))
          (auditQuarantine w (textOf item'.originalPath)
            ((py "action", .str (py "delete")) :: item'.toDict) s.rest) result ∧
        Fits q (.obj [(py "deleted", .bool true), (py "response_action", .obj result.toDict)])
  | .updateEnforcementPolicy => ∀ mode, setMode (textParam q.params (py "mode")) = some mode → mode ≠ s.mode →
      (∃ rest, w.record (py "policy") (py "enforcement_mode")
        [(py "changed_by", .str (r.username db)), (py "requester_pid", .int r.pid),
          (py "new_mode", .str (textParam q.params (py "mode")))] s.rest = (.ok (), rest)) ∧
      Fits q (.obj [(py "mode", .str (textParam q.params (py "mode")))])
  | _ => True

/-- What comes of a request. Copying the record of an item can raise `RecursionError` where the record
    nests deeper than `room`, and this ends the handler anywhere; the files of an item that cannot be
    changed are the same all along. -/
inductive Outcome (db : Accounts) (w : World R F) (room : Nat) (r : Requester) (q : RequestMessage F)
    (s : Shared R) : Except LineExc (Response F) × Shared R → Prop
  | handled : Outcome db w room r q s (processRequest db (handleIpcAction db w) q r s)
  | overflowed {id : PyStr} {j : Nat} {item : QuarantineRecord F} {f : Files Path}
      (hauthorized : authorize db r q.action = .ok ()) (hl : Loaded w.manager s.files q.item id j item)
      (hdeep : room < (Json.obj item.toDict).depth)
      (hf : (∃ target, Restorable w.manager s.files q id item target) ∨
        Deletable w.manager s.files q id item ∨ f = s.files) :
      Outcome db w room r q s (.ok (handlerFailure q.requestId .other), { s with files := f })

/-! ## Recording -/

section Recording

variable {w : World R F} {I : Interpreter F} {H : HexDigest} {log : R → Audit.Logger × Audit.Dir}
  {source subject action : PyStr} {payload : Mapping F} {rest rest' : R}

/-- The line that is appended is the end of the active segment. -/
theorem active_appendEffects (c : Audit.Config) (dir : Audit.Dir) (line : Bytes) :
    ∃ before, (applyAll dir (appendEffects c dir line)).files.get? c.fileName = some (before ++ line) := by
  rw [appendEffects, Audit.applyAll_append]
  exact ⟨_, Dict.get?_set_self _ _ _⟩

/-- A call of `record` is a step of the log, or none. -/
theorem World.Logs.steps (hlog : w.Logs I H log) {answer : Except HandlerExc Unit}
    (hrecord : w.record source subject payload rest = (answer, rest')) :
    Relation.ReflTransGen (LogStep I H) (log rest) (log rest') := by
  cases answer with
  | ok u =>
      obtain ⟨stamp, hash, hcall⟩ := hlog.record _ _ _ _ _ hrecord
      exact .single (.returned hcall)
  | error e =>
      rcases hlog.raises _ _ _ _ _ _ hrecord with hsame | ⟨stamp, input, done, hfailed⟩
      · rw [hsame]
      · exact .single (.raised hfailed)

/-- A record that has been written is the last one. -/
theorem World.Logs.appends (hlog : w.Logs I H log)
    (hrecord : w.record source subject payload rest = (.ok (), rest')) (hkeys : (keys payload).Nodup)
    {key text : PyStr} (hkey : lookup key payload = some (.str text)) :
    Appends F (log rest) (log rest') source key text := by
  obtain ⟨stamp, hash, hcall⟩ := hlog.record _ _ _ _ _ hrecord
  obtain ⟨members, hsafe, hcall⟩ := recordPayload_ok.1 hcall
  obtain ⟨lg₁, plan, hprepare, -, hdir⟩ := record_ok hcall
  have hconfig : (log rest').1.config = lg₁.config := by
    have hlogger := congrArg (fun x => x.2.1) hcall
    simp only [Audit.record, hprepare] at hlogger
    rw [← hlogger]
  obtain ⟨last, n, _, htail, -, rfl, hplan⟩ := prepare_ok hprepare
  obtain ⟨before, hbefore⟩ := active_appendEffects (log rest).1.config (log rest).2 plan.line
  refine ⟨last, n, before, plan.line, plan.entry, members.1, htail, hplan.encoded, ?_,
    hplan.built.sequence_eq, hplan.carries.source, ?_, safePayload_lookup hsafe hkeys hkey⟩
  · rw [hdir, hplan.effects, hconfig]
    exact hbefore
  · rw [hplan.carries.payload]
    exact congrArg some (Audit.safeValue_safeOf (Audit.safePayload_ok hsafe).2)

/-- The state that a request makes up has no score, and the pid of the peer. -/
theorem result_synthetic (stamp : Response.Stamp F) (action : PyStr) (pid : Int)
    (report : Response.Report F) : ∃ result, Response.result stamp (synthetic action pid) report = .ok result ∧
      result.stamp = stamp := by
  have hscore : Response.score (synthetic action pid : Mapping F) = .ok (Correlation.clampScore 0) := rfl
  have hpid : Response.pid (synthetic action pid : Mapping F) = .ok (if 0 < pid then some pid else none) := rfl
  exact ⟨_, by rw [Response.result, hscore, hpid]; rfl, rfl⟩

/-- A result is handed on if and only if it has been recorded. -/
theorem finishResult_ok_iff {pid : Int} {report : Response.Report F} {answer : Mapping F} :
    finishResult w action pid report rest = (.ok answer, rest') ↔
      ∃ result rest₁, Response.result w.stamp (synthetic action pid) report = .ok result ∧
        w.record (py "response") (action.map fun c => if 65 ≤ c ∧ c ≤ 90 then c + 32 else c)
          result.toDict rest = (.ok (), rest₁) ∧
        answer = result.toDict ∧
        rest' = w.noteEvent ((py "source", .str (py "response")) :: result.toDict) rest₁ := by
  obtain ⟨result, hresult, -⟩ := result_synthetic w.stamp action pid report
  simp only [finishResult, hresult, Except.ok.injEq]
  constructor
  · intro h
    split at h
    · cases h
    · next u rest₁ hrecord =>
      simp only [Prod.mk.injEq, Except.ok.injEq] at h
      exact ⟨result, rest₁, rfl, hrecord, h.1.symm, h.2.symm⟩
  · rintro ⟨_, rest₁, rfl, hrecord, rfl, rfl⟩
    rw [hrecord]

/-- A result that has been handed on is the last record. -/
theorem World.Logs.finishResult (hlog : w.Logs I H log) {pid : Int} {report : Response.Report F}
    {answer : Mapping F} (h : finishResult w action pid report rest = (.ok answer, rest')) :
    Appends F (log rest) (log rest') (py "response") (py "action_id") w.stamp.actionId := by
  obtain ⟨result, rest₁, hresult, hrecord, -, rfl⟩ := finishResult_ok_iff.1 h
  obtain ⟨result', hresult', hstamp⟩ := result_synthetic w.stamp action pid report
  obtain rfl : result' = result := Except.ok.inj (hresult'.symm.trans hresult)
  rw [hlog.noteEvent]
  refine hlog.appends hrecord ?_ ?_
  · have hkeys : keys result'.toDict = [py "schema_version", py "action_id", py "correlation_id",
      py "requested_action", py "executed_action", py "status", py "timestamp", py "timestamp_utc",
      py "score", py "reason", py "triggered_rules", py "pid", py "path", py "details",
      py "failure_explanation"] := rfl
    rw [hkeys]
    decide
  · rw [show lookup (py "action_id") result'.toDict = some (.str result'.stamp.actionId) from rfl, hstamp]

/-- `restore` returns if and only if the result has been recorded. -/
theorem restoreResult_ok_iff {id actor : PyStr} {pid : Int} {r : QuarantineRecord F} {answer : Json F} :
    restoreResult w id actor pid (.ok r) rest = (.ok answer, rest') ↔
      ∃ result, Service.finishResult w (py "RESTORE") pid (restoredReport actor r)
          (auditQuarantine w (textOf r.restoredPath) ((py "action", .str (py "restore")) :: r.toDict) rest) =
        (.ok result, rest') ∧ answer = .obj (r.toDict ++ [(py "response_action", .obj result)]) := by
  unfold restoreResult restoredReport
  dsimp only
  constructor
  · intro h
    split at h
    · cases h
    · next result rest₁ hfinish =>
      simp only [Prod.mk.injEq, Except.ok.injEq] at h
      obtain ⟨rfl, rfl⟩ := h
      exact ⟨result, hfinish, rfl⟩
  · rintro ⟨result, hfinish, rfl⟩
    rw [hfinish]

/-- What `delete_permanently` has audited before it reports. -/
def auditDeleted (w : World R F) (deleted : Option (QuarantineRecord F)) (rest : R) : R :=
  match deleted with
  | none => rest
  | some r => auditQuarantine w (textOf r.originalPath) ((py "action", .str (py "delete")) :: r.toDict) rest

/-- So does `delete_permanently`. -/
theorem deleteResult_ok_iff {id actor : PyStr} {pid : Int} {deleted : Option (QuarantineRecord F)}
    {answer : Json F} :
    deleteResult w id actor pid (.ok deleted) rest = (.ok answer, rest') ↔
      ∃ result, Service.finishResult w (py "DELETE_PERMANENTLY") pid (deletedReport actor id)
          (auditDeleted w deleted rest) = (.ok result, rest') ∧
        answer = .obj [(py "deleted", .bool true), (py "response_action", .obj result)] := by
  have haudit : deleteResult w id actor pid (.ok deleted) rest =
      deleteResult w id actor pid (.ok none) (auditDeleted w deleted rest) := by
    cases deleted <;> rfl
  rw [haudit]
  unfold deleteResult deletedReport
  dsimp only
  constructor
  · intro h
    split at h
    · cases h
    · next result rest₁ hfinish =>
      simp only [Prod.mk.injEq, Except.ok.injEq] at h
      obtain ⟨rfl, rfl⟩ := h
      exact ⟨result, hfinish, rfl⟩
  · rintro ⟨result, hfinish, rfl⟩
    rw [hfinish]

/-- The manager's own record may fail. -/
theorem World.Logs.auditQuarantine (hlog : w.Logs I H log) (target : PyStr) (details : Mapping F) :
    Relation.ReflTransGen (LogStep I H) (log rest) (log (Service.auditQuarantine w target details rest)) :=
  hlog.steps (Prod.mk.eta (p := w.record (py "quarantine") target details rest)).symm

theorem World.Logs.auditDeleted (hlog : w.Logs I H log) (deleted : Option (QuarantineRecord F)) :
    Relation.ReflTransGen (LogStep I H) (log rest) (log (Service.auditDeleted w deleted rest)) := by
  cases deleted with
  | none => exact .refl
  | some r => exact hlog.auditQuarantine _ _

end Recording

/-! ## The files -/

section Files

variable {w : World R F} {room : Nat} {uuid : PyStr} {q : RequestMessage F} {s : Shared R} {f : Files Path}

theorem alone_respects (w : World R F) (m : Manager) (f : Files Path) : (alone w).Respects m f where
  records _ _ _ := by simp [alone]
  destination _ := by simp [alone]
  payload _ h := by simp [alone] at h
  old := Nat.zero_le _

theorem unchanged_of_alone {f₀ f : Files Path} (h : Intrusion (alone w) f₀ f) : Unchanged f₀ f :=
  ⟨funext fun p => h.names p (by simp [alone]), ⟨h.used.ge, fun i _ => h.nodes i (by simp [alone])⟩⟩

/-- Nothing has happened to the files. -/
theorem unaltered_of_unchanged (m : Manager) (hwf : s.files.WF) {s' : Shared R} (hmode : s'.mode = s.mode)
    (h : Unchanged s.files s'.files) : Unaltered m q s s' where
  mode := hmode
  store := h.asBefore hwf
  destination target _ := ⟨by rw [h.names], fun i hi => h.keeps.nodes i (hwf _ _ hi)⟩

/-- A record of the item has been written that has this status. -/
theorem itemHas_of_encodes {m : Manager} {id : PyStr} {i j : Nat} {r r' : QuarantineRecord F}
    (hl : Loaded m s.files q.item id j r) (hsame : SameItem r r') (hi : f.names (m.metadataPath id) = some i)
    (henc : Encodes r' (f.nodes i).bytes) {status : PyStr} (hstatus : r'.restorationStatus = .str status) :
    ItemHas F m f id status := by
  obtain ⟨hwf, -, hid⟩ := decodeRecord_ok hl.decoded
  have hstored : Stored id r' (f.nodes i).bytes :=
    ⟨hsame.wf hwf, henc.1, isUuid_of_validate hl.id_ok, hsame.quarantineId.trans hid, henc.2⟩
  exact ⟨i, r'.canon, hi, hstored.decode m.str, congrArg Json.sortKeys hstatus⟩

/-- The files after a restoration: a restored file stands where nothing was. -/
theorem restoreFile_outcome (hq : q.action = .restoreFile) (hcalm : Calm w room uuid q s)
    {x : Except Quarantine.Exc (QuarantineRecord F)}
    (hrun : (restoreFile w.manager q.item (destinationOf q.params)).execute w.kernel 0 s.files = (x, f))
    (rest : R) :
    match x with
    | .error _ => Unaltered w.manager q s { s with files := f, rest := rest }
    | .ok r' => ¬ Unaltered w.manager q s { s with files := f, rest := rest } ∧
        Granted w.manager q s { s with files := f, rest := rest } ∧
        ∃ id r target, Restorable w.manager s.files q id r target ∧ MarksRestored (alone w) r target r' := by
  have hkernel := hcalm.kernel
  rw [KernelSound, hq] at hkernel
  have hstorm := hkernel.storms
  rw [hrun] at hstorm
  have hpost := restoreFile_post hcalm.wf (alone_respects w w.manager s.files) hstorm
  -- what the post-conditions say of an item whose place is free
  have hrestorable {id : PyStr} {j : Nat} {r : QuarantineRecord F} {target : Path}
      (hl : Loaded w.manager s.files q.item id j r) (hlive : hasStatus r (py "deleted") = false)
      (hleads : restoreTarget w.manager (destinationOf q.params) r.originalPath = some target)
      (hfree : s.files.names target = none) (hverified : Verified (alone w) w.manager id r s.files) :
      Restorable w.manager s.files q id r target := by
    obtain ⟨k, hk, hdescribes⟩ := hverified (by simp [alone])
    exact ⟨hq, ⟨j, hl⟩, hlive, hleads, hfree, k, hk, hdescribes (by simp [alone])⟩
  cases x with
  | error e =>
      rcases hpost with hquiet | ⟨id, j, r, target, hl, hlive, htarget, hverified, hundone⟩
      · exact unaltered_of_unchanged _ hcalm.wf rfl (unchanged_of_alone hquiet)
      · have hfree : s.files.names target = none := hundone.aftermath.free (by simp [alone])
        have hgone : f.names target = none := by
          rcases hundone.cleared with hblind | hgone | ⟨hout, -⟩
          · cases hblind
          · exact hgone
          · cases hout
        have hwritable := (hcalm.restored id r target (hrestorable hl hlive htarget hfree hverified)).2
        refine ⟨rfl, hundone.asBefore ⟨rfl, rfl⟩ hcalm.wf hwritable hl (.inr (hgone.trans hfree.symm)), ?_⟩
        rintro target' ⟨-, id', j', r', hl', htarget'⟩
        obtain ⟨rfl, rfl, rfl⟩ := hl.unique hl'
        obtain rfl : target = target' := Option.some.inj (htarget.symm.trans htarget')
        exact ⟨hgone.trans hfree.symm, fun i hi => by cases hfree.symm.trans hi⟩
  | ok r' =>
      obtain ⟨id, j, r, target, n, hl, hlive, htarget, hrestored⟩ := hpost
      have hfilling := hrestored.renewed.filling
      have hfree : s.files.names target = none := hfilling.toAftermath.free (by simp [alone])
      have hmade : f.names target = some s.files.used :=
        hfilling.target.resolve_right fun hout => by cases hout.1
      obtain ⟨i, hi, -, -, henc⟩ := hrestored.renewed.record
      refine ⟨fun hunaltered => ?_, ?_, id, r, target,
        hrestorable hl hlive htarget hfree hrestored.verified, hrestored.marked⟩
      · have hsame := (hunaltered.destination target ⟨hq, id, j, r, hl, htarget⟩).1
        cases hmade.symm.trans (hsame.trans hfree)
      · show Granted _ _ _ _
        rw [Granted, hq]
        refine ⟨id, j, target, s.files.used, r, hl, htarget, hmade,
          hfilling.made.kind.trans hfilling.regular, ?_,
          itemHas_of_encodes hl hrestored.same hi henc hrestored.status⟩
        rw [hfilling.made.bytes]
        exact hrestored.bytes

/-- The files after a deletion: the payload that was there is gone. -/
theorem deletePermanently_outcome (hq : q.action = .deletePermanently) (hcalm : Calm w room uuid q s)
    {x : Except Quarantine.Exc (Option (QuarantineRecord F))}
    (hrun : (deletePermanently w.manager q.item).execute w.kernel 0 s.files = (x, f)) (rest : R) :
    match x with
    | .error _ => Unaltered w.manager q s { s with files := f, rest := rest }
    | .ok none => Unaltered w.manager q s { s with files := f, rest := rest } ∧
        Granted w.manager q s { s with files := f, rest := rest }
    | .ok (some r') => ¬ Unaltered w.manager q s { s with files := f, rest := rest } ∧
        Granted w.manager q s { s with files := f, rest := rest } ∧
        ∃ id r, Deletable w.manager s.files q id r ∧ MarksDeleted r r' := by
  have hkernel := hcalm.kernel
  rw [KernelSound, hq] at hkernel
  obtain ⟨b, hsteps⟩ := hkernel.ends
  rw [hrun] at hsteps
  have hfile (id : PyStr) (j : Nat) (r : QuarantineRecord F) (k : Nat)
      (hl : Loaded w.manager s.files q.item id j r) (hlive : hasStatus r (py "deleted") = false)
      (hk : s.files.names (w.manager.payloadPath id) = some k)
      (hpending : s.files.names (w.manager.deletePending id) = none) :
      (s.files.nodes k).kind ≠ .directory :=
    (hcalm.deleted id r ⟨hq, ⟨j, hl⟩, hlive, ⟨k, hk⟩, hpending⟩).2.2 k hk
  have hpost := wp_steps (wp_deletePermanently hcalm.wf hfile) hsteps
  rcases x with e | (- | r')
  · rcases hpost.2 with hu | ⟨id, j, k, r, hl, hlive, hpayload, hpending, hun | ⟨-, -, e', hrecovers, hne, hne'⟩⟩
    · exact unaltered_of_unchanged _ hcalm.wf rfl hu
    · have hwritable := (hcalm.deleted id r ⟨hq, ⟨j, hl⟩, hlive, ⟨k, hpayload⟩, hpending⟩).2.1
      refine ⟨rfl, hun.asBefore hcalm.wf hwritable hl hpayload hpending, ?_⟩
      rintro target ⟨hrestore, -⟩
      cases hq.symm.trans hrestore
    · -- the `fsync` after the deletion is left out
      exact ((hrecovers rfl e' rfl).elim hne hne').elim
  · obtain ⟨rfl, id, j, r, hl, hdeleted⟩ := hpost.2
    refine ⟨unaltered_of_unchanged _ hcalm.wf rfl (.refl _), ?_⟩
    rw [Granted, hq]
    -- the item was deleted before
    refine ⟨id, j, r, hl, ⟨j, r, hl.named, hl.decoded, ?_⟩, hcalm.gone hq id j r hl hdeleted⟩
    unfold hasStatus at hdeleted
    split at hdeleted
    · next status hstatus => rw [hstatus, eq_of_beq hdeleted]
    · cases hdeleted
  · obtain ⟨id, j, r, hl, hlive, ⟨k, hpayload⟩, hpending, hmarks, hnew⟩ := hpost.2
    obtain ⟨i, hi, -, -, henc⟩ := hnew.record
    refine ⟨fun hunaltered => ?_, ?_, id, r, ⟨hq, ⟨j, hl⟩, hlive, ⟨k, hpayload⟩, hpending⟩, hmarks⟩
    · have hsame := hunaltered.store.payload id (isUuid_of_validate hl.id_ok)
      cases (hnew.deleting.payload.symm.trans hsame).trans hpayload
    · show Granted _ _ _ _
      rw [Granted, hq]
      exact ⟨id, j, r, hl, itemHas_of_encodes hl hmarks.same hi henc hmarks.status,
        hnew.deleting.payload, hnew.deleting.pending⟩

end Files

/-! ## The handler -/

section Handling

variable {db : Accounts} {w : World R F} {I : Interpreter F} {H : HexDigest}
  {log : R → Audit.Logger × Audit.Dir} {room : Nat} {uuid : PyStr} {r : Requester} {q : RequestMessage F}
  {s : Shared R}

/-- What the handler has done: it leaves everything as it was if and only if the request takes no effect,
    and where it returns the request is granted and recorded. -/
structure Handles (w : World R F) (I : Interpreter F) (H : HexDigest) (log : R → Audit.Logger × Audit.Dir)
    (q : RequestMessage F) (s : Shared R) (out : Except HandlerExc (Json F) × Shared R) : Prop where
  unaltered : Unaltered w.manager q s out.2 ↔ ¬ TakesEffect w q s
  ok : ∀ result, out.1 = .ok result → Granted w.manager q s out.2 ∧ Logged w I H log q s.rest out.2.rest

theorem unaltered_refl (m : Manager) (hwf : s.files.WF) (rest : R) :
    Unaltered m q s { s with rest := rest } := unaltered_of_unchanged m hwf rfl (.refl _)

theorem handleIpcAction_restoreFile {ended : Except Quarantine.Exc (QuarantineRecord F)} {f : Files Path}
    (hrun : (restoreFile w.manager q.item (destinationOf q.params)).execute w.kernel 0 s.files = (ended, f)) :
    handleIpcAction db w .restoreFile q.params r s =
      ((restoreResult w (textParam q.params (py "quarantine_id")) (r.username db) r.pid ended s.rest).1,
        { s with
          files := f
          rest := (restoreResult w (textParam q.params (py "quarantine_id")) (r.username db) r.pid ended
            s.rest).2 }) := by
  have hrun' : (restoreFile w.manager (.str (textParam q.params (py "quarantine_id")))
    (destinationOf q.params)).execute w.kernel 0 s.files = (ended, f) := hrun
  simp only [handleIpcAction, hrun']

theorem handleIpcAction_deletePermanently {ended : Except Quarantine.Exc (Option (QuarantineRecord F))}
    {f : Files Path}
    (hrun : (deletePermanently w.manager q.item).execute w.kernel 0 s.files = (ended, f)) :
    handleIpcAction db w .deletePermanently q.params r s =
      ((deleteResult w (textParam q.params (py "quarantine_id")) (r.username db) r.pid ended s.rest).1,
        { s with
          files := f
          rest := (deleteResult w (textParam q.params (py "quarantine_id")) (r.username db) r.pid ended
            s.rest).2 }) := by
  have hrun' : (deletePermanently w.manager (.str (textParam q.params (py "quarantine_id")))).execute
    w.kernel 0 s.files = (ended, f) := hrun
  simp only [handleIpcAction, hrun']

theorem restoreFile_handles (hq : q.action = .restoreFile) (hlog : w.Logs I H log)
    (hcalm : Calm w room uuid q s) :
    Handles w I H log q s (handleIpcAction db w .restoreFile q.params r s) := by
  cases hrun : (restoreFile w.manager q.item (destinationOf q.params)).execute w.kernel 0 s.files with
  | mk ended f =>
      have houtcome := restoreFile_outcome hq hcalm hrun
      rw [handleIpcAction_restoreFile hrun]
      cases ended with
      | error e =>
          have hnone : ¬ TakesEffect w q s := by
            rw [TakesEffect, hq]
            rintro ⟨r', f', hok⟩
            cases congrArg Prod.fst (hrun.symm.trans hok)
          refine ⟨⟨fun _ => hnone, fun _ => houtcome _⟩, fun result hresult => ?_⟩
          unfold restoreResult at hresult
          dsimp only at hresult
          split at hresult
          · split at hresult <;> cases hresult
          · cases hresult
      | ok r' =>
          have heffect : TakesEffect w q s := by
            rw [TakesEffect, hq]
            exact ⟨r', f, hrun⟩
          refine ⟨⟨fun h => absurd h (houtcome _).1, fun h => absurd heffect h⟩, fun result hresult => ?_⟩
          refine ⟨(houtcome _).2.1, ?_⟩
          obtain ⟨answer, hfinish, -⟩ := restoreResult_ok_iff.1 (Prod.ext hresult rfl)
          refine ⟨_, hlog.auditQuarantine (textOf r'.restoredPath)
            ((py "action", .str (py "restore")) :: r'.toDict), ?_⟩
          rw [hq]
          exact hlog.finishResult hfinish

theorem deletePermanently_handles (hq : q.action = .deletePermanently) (hlog : w.Logs I H log)
    (hcalm : Calm w room uuid q s) :
    Handles w I H log q s (handleIpcAction db w .deletePermanently q.params r s) := by
  cases hrun : (deletePermanently w.manager q.item).execute w.kernel 0 s.files with
  | mk ended f =>
      have houtcome := deletePermanently_outcome hq hcalm hrun
      rw [handleIpcAction_deletePermanently hrun]
      have heffect : TakesEffect w q s ↔ ∃ r', ended = .ok (some r') := by
        rw [TakesEffect, hq]
        simp only [hrun, Prod.mk.injEq]
        exact ⟨fun ⟨r', _, h, _⟩ => ⟨r', h⟩, fun ⟨r', h⟩ => ⟨r', f, h, rfl⟩⟩
      have hlogged {deleted : Option (QuarantineRecord F)} {result : Json F}
          (hresult : (deleteResult w (textParam q.params (py "quarantine_id")) (r.username db) r.pid
            (.ok deleted) s.rest).1 = .ok result) :
          Logged w I H log q s.rest (deleteResult w (textParam q.params (py "quarantine_id"))
            (r.username db) r.pid (.ok deleted) s.rest).2 := by
        obtain ⟨answer, hfinish, -⟩ := deleteResult_ok_iff.1 (Prod.ext hresult rfl)
        refine ⟨_, hlog.auditDeleted deleted, ?_⟩
        rw [hq]
        exact hlog.finishResult hfinish
      cases ended with
      | error e =>
          refine ⟨⟨fun _ => by simp [heffect], fun _ => houtcome _⟩, fun result hresult => ?_⟩
          unfold deleteResult at hresult
          dsimp only at hresult
          split at hresult
          · split at hresult <;> cases hresult
          · cases hresult
      | ok deleted =>
          cases deleted with
          | none =>
              exact ⟨⟨fun _ => by simp [heffect], fun _ => (houtcome _).1⟩,
                fun result hresult => ⟨(houtcome _).2, hlogged hresult⟩⟩
          | some r' =>
              exact ⟨⟨fun h => absurd h (houtcome _).1, fun h => absurd (heffect.2 ⟨r', rfl⟩) h⟩,
                fun result hresult => ⟨(houtcome _).2.1, hlogged hresult⟩⟩

theorem updateEnforcementPolicy_handles (hq : q.action = .updateEnforcementPolicy) (hlog : w.Logs I H log)
    (hwf : s.files.WF) :
    Handles w I H log q s (handleIpcAction db w .updateEnforcementPolicy q.params r s) := by
  have heffect : TakesEffect w q s ↔
      ∃ mode, setMode (textParam q.params (py "mode")) = some mode ∧ mode ≠ s.mode := by
    rw [TakesEffect, hq]
  simp only [handleIpcAction]
  cases hmode : setMode (textParam q.params (py "mode")) with
  | none =>
      refine ⟨⟨fun _ => ?_, fun _ => unaltered_refl w.manager hwf s.rest⟩, fun result hresult => ?_⟩
      · rw [heffect, hmode]
        rintro ⟨mode, h, -⟩
        cases h
      · cases hresult
  | some mode =>
      have hswitches : TakesEffect w q s ↔ mode ≠ s.mode := by
        rw [heffect, hmode]
        exact ⟨fun ⟨_, h, hne⟩ => Option.some.inj h ▸ hne, fun hne => ⟨mode, rfl, hne⟩⟩
      have hunaltered (rest : R) :
          Unaltered w.manager q s { s with mode := mode, rest := rest } ↔ ¬ TakesEffect w q s := by
        rw [hswitches, not_not]
        exact ⟨fun h => h.mode, fun hsame => unaltered_of_unchanged _ hwf hsame (.refl _)⟩
      dsimp only
      split
      next e rest hrecord => exact ⟨hunaltered rest, fun result hresult => by cases hresult⟩
      next u rest hrecord =>
        refine ⟨hunaltered rest, fun result hresult => ⟨?_, log s.rest, .refl, ?_⟩⟩
        · show Granted _ _ _ _
          rw [Granted, hq]
          exact hmode
        · rw [hq]
          refine hlog.appends hrecord ?_ rfl
          show ([py "changed_by", py "requester_pid", py "new_mode"] : List PyStr).Nodup
          decide

/-- What every sensitive request does. -/
theorem handles (hlevel : q.action.level = .sensitive) (hlog : w.Logs I H log)
    (hcalm : Calm w room uuid q s) :
    Handles w I H log q s (handleIpcAction db w q.action q.params r s) := by
  cases hq : q.action with
  | restoreFile => exact restoreFile_handles hq hlog hcalm
  | deletePermanently => exact deletePermanently_handles hq hlog hcalm
  | updateEnforcementPolicy => exact updateEnforcementPolicy_handles hq hlog hcalm.wf
  | getStatus | listEvents | listRuntimeStates | listQuarantine | getPolicy | scanFile =>
      rw [hq] at hlevel
      cases hlevel

/-! ## What is recorded is answered -/

/-- A result that is recorded is handed on. -/
theorem World.Records.finishes {action subject : PyStr} {pid : Int} {report : Response.Report F} {rest : R}
    {result : Response.ActionResult F} (h : w.Records action subject pid report rest result)
    (hsubject : (action.map fun c => if 65 ≤ c ∧ c ≤ 90 then c + 32 else c) = subject) :
    ∃ rest', finishResult w action pid report rest = (.ok result.toDict, rest') := by
  obtain ⟨hresult, rest', hrecord⟩ := h
  subst hsubject
  exact ⟨_, finishResult_ok_iff.2 ⟨result, rest', hresult, hrecord, rfl, rfl⟩⟩

/-- The result of a request that takes effect is handed on, and fits. -/
theorem answered (hcalm : Calm w room uuid q s) (hrecorded : Recorded db w r q s)
    (heffect : TakesEffect w q s) : Answered db w r q s := by
  cases hq : q.action with
  | restoreFile =>
      rw [TakesEffect, hq] at heffect
      obtain ⟨item', f, hrun⟩ := heffect
      obtain ⟨-, -, id, item, target, hrestorable, hmarks⟩ := restoreFile_outcome hq hcalm hrun s.rest
      rw [Recorded, hq] at hrecorded
      obtain ⟨result, hrecords, hfits⟩ := hrecorded id item target item' hrestorable hmarks
      obtain ⟨rest, hfinish⟩ := hrecords.finishes (by decide)
      refine ⟨_, { s with files := f, rest := rest }, ?_, hfits⟩
      rw [hq, handleIpcAction_restoreFile hrun, restoreResult_ok_iff.2 ⟨_, hfinish, rfl⟩]
  | deletePermanently =>
      rw [TakesEffect, hq] at heffect
      obtain ⟨item', f, hrun⟩ := heffect
      obtain ⟨-, -, id, item, hdeletable, hmarks⟩ := deletePermanently_outcome hq hcalm hrun s.rest
      rw [Recorded, hq] at hrecorded
      obtain ⟨result, hrecords, hfits⟩ := hrecorded id item item' hdeletable hmarks
      obtain ⟨rest, hfinish⟩ := hrecords.finishes (by decide)
      refine ⟨_, { s with files := f, rest := rest }, ?_, hfits⟩
      rw [hq, handleIpcAction_deletePermanently hrun, deleteResult_ok_iff.2 ⟨_, hfinish, rfl⟩]
  | updateEnforcementPolicy =>
      rw [TakesEffect, hq] at heffect
      obtain ⟨mode, hmode, hne⟩ := heffect
      rw [Recorded, hq] at hrecorded
      obtain ⟨⟨rest, hrecord⟩, hfits⟩ := hrecorded mode hmode hne
      refine ⟨_, { s with mode := mode, rest := rest }, ?_, hfits⟩
      simp only [hq, handleIpcAction, hmode, hrecord]
  | getStatus | listEvents | listRuntimeStates | listQuarantine | getPolicy | scanFile =>
      rw [TakesEffect, hq] at heffect
      cases heffect

/-! ## Responses -/

/-- An error is delivered as an error. -/
theorem delivered_error {response : Response F} {e : RemoteError} (h : response.outcome = .error e) :
    ∃ e', (delivered response).outcome = .error e' := by
  unfold delivered
  split
  · exact ⟨e, h⟩
  · exact ⟨_, rfl⟩

theorem handlerFailure_outcome (id : PyStr) (e : HandlerExc) :
    ∃ e', (handlerFailure id e : Response F).outcome = .error e' := by
  cases e <;> exact ⟨_, rfl⟩

/-- A result is delivered if and only if it fits. -/
theorem delivered_success (q : RequestMessage F) (result : Json F) :
    (Fits q result ∧ (delivered (successResponse q.requestId result)).outcome = .ok result) ∨
      ¬ Fits q result ∧ ∃ e, (delivered (successResponse q.requestId result)).outcome = .error e := by
  unfold delivered Fits
  split
  · next data hdata => exact .inl ⟨⟨data, hdata⟩, rfl⟩
  · next hfails =>
      refine .inr ⟨?_, _, rfl⟩
      rintro ⟨data, hdata⟩
      rw [hdata] at hfails
      cases hfails

/-- A response that is delivered as an error is truthful if and only if nothing has changed. -/
theorem truthful_error_iff {response : Response F} {e : RemoteError} {s' : Shared R}
    (h : (delivered response).outcome = .error e) :
    Truthful w I H log q s (.ok response, s') ↔ Unaltered w.manager q s s' := by
  refine ⟨fun htruthful => htruthful.error response e rfl h, fun hunaltered => ⟨fun _ _ _ _ => hunaltered, ?_⟩⟩
  rintro _ result ⟨⟩ hresult
  cases h.symm.trans hresult

/-- A request that takes effect is answered truthfully if and only if its result is handed on and fits, and
    one that takes none is. -/
theorem truthful_iff (hlevel : q.action.level = .sensitive) (hlog : w.Logs I H log)
    (hcalm : Calm w room uuid q s) :
    Truthful w I H log q s (processRequest db (handleIpcAction db w) q r s) ↔
      (authorize db r q.action = .ok () → TakesEffect w q s → Answered db w r q s) := by
  have hhandles : Handles w I H log q s (handleIpcAction db w q.action q.params r s) :=
    handles hlevel hlog hcalm
  unfold processRequest
  split
  next hdenied =>
    refine ⟨fun _ h => ?_, fun _ => ⟨fun _ _ h => ?_, fun _ _ h => ?_⟩⟩
    · cases hdenied.symm.trans h
    · cases h
    · cases h
  next text hdenied =>
    have hresponse : (errorResponse (F := F) (some q.requestId) (py "AUTHORIZATION_DENIED") text).outcome =
      .error ⟨py "AUTHORIZATION_DENIED", text⟩ := rfl
    obtain ⟨e, he⟩ := delivered_error hresponse
    rw [truthful_error_iff he]
    refine ⟨fun _ h => ?_, fun _ => unaltered_refl w.manager hcalm.wf s.rest⟩
    cases hdenied.symm.trans h
  next u hpasses =>
    have hauthorized : authorize db r q.action = .ok () := hpasses
    cases hout : handleIpcAction db w q.action q.params r s with
    | mk result s' =>
        rw [hout] at hhandles
        cases result with
        | error e =>
            obtain ⟨e', he'⟩ := handlerFailure_outcome (F := F) q.requestId e
            obtain ⟨e'', he''⟩ := delivered_error he'
            dsimp only
            rw [truthful_error_iff he'', hhandles.unaltered]
            refine ⟨fun hnone _ heffect => absurd heffect hnone, fun h heffect => ?_⟩
            obtain ⟨result, s₁, hok, -⟩ := h hauthorized heffect
            cases congrArg Prod.fst (hout.symm.trans hok)
        | ok result =>
            dsimp only
            rcases delivered_success q result with ⟨hfits, hdelivered⟩ | ⟨hlong, e, he⟩
            · refine ⟨fun _ _ _ => ⟨result, s', hout, hfits⟩, fun _ => ⟨?_, ?_⟩⟩
              · rintro _ e ⟨⟩ he
                cases hdelivered.symm.trans he
              · rintro _ _ ⟨⟩ -
                exact hhandles.ok result rfl
            · rw [truthful_error_iff he, hhandles.unaltered]
              refine ⟨fun hnone _ heffect => absurd heffect hnone, fun h heffect => ?_⟩
              obtain ⟨result', s₁, hok, hfits⟩ := h hauthorized heffect
              obtain rfl : result = result' := Except.ok.inj (congrArg Prod.fst (hout.symm.trans hok))
              exact hlong hfits

end Handling

/-! ## A change of the mode -/

private def sampleAccounts : Accounts := ⟨fun _ => none, fun _ => none, fun _ _ => .error .keyError⟩

private def rootPeer : Requester := ⟨1, 0, 0⟩

private def enforceRequest : RequestMessage SampleFloat :=
  ⟨1, py "r1", .updateEnforcementPolicy, [(py "mode", .str (py "ENFORCEMENT"))]⟩

/-- A daemon whose audit logger is `record`. -/
private def daemonWith (record : PyStr → PyStr → Mapping SampleFloat → Audit.Logger × Audit.Dir →
    Except HandlerExc Unit × (Audit.Logger × Audit.Dir)) : World (Audit.Logger × Audit.Dir) SampleFloat where
  kernel _ _ f := (.error (.os (.other 5)), f)
  manager := sampleManager
  glob _ := []
  newestFirst := .ok
  getStatus rest := (.null, rest)
  recent _ _ := []
  listStates _ rest := ([], rest)
  policyFields := []
  scan _ _ _ rest := (.ok .null, rest)
  record := record
  noteEvent _ rest := rest
  stamp := ⟨py "a1", .zero, py "1970-01-01T00:00:00+00:00"⟩

/-- The audit logger at a fixed time. -/
private def recordSample (source subject : PyStr) (payload : Mapping SampleFloat)
    (rest : Audit.Logger × Audit.Dir) : Except HandlerExc Unit × (Audit.Logger × Audit.Dir) :=
  match recordPayload Audit.plainInterpreter Audit.sha256Digest rest.1 rest.2 (.ok Audit.sampleStamp) source
      subject (ofJsonMembers payload) with
  | (.ok _, rest) => (.ok (), rest)
  | (.error _, _) => (.error .other, rest)

private def monitoring : Shared (Audit.Logger × Audit.Dir) :=
  ⟨.monitorOnly, sampleDisk.files, Audit.freshLogger, {}⟩

private theorem recordSample_logs : (daemonWith recordSample).Logs Audit.plainInterpreter Audit.sha256Digest id where
  record source subject payload rest rest' h := by
    change recordSample source subject payload rest = (.ok (), rest') at h
    unfold recordSample at h
    split at h
    · next hash after hcall =>
      obtain rfl : after = rest' := congrArg Prod.snd h
      exact ⟨_, _, hcall⟩
    · cases h
  raises source subject payload rest e rest' h := by
    change recordSample source subject payload rest = (.error e, rest') at h
    unfold recordSample at h
    split at h
    · cases h
    · exact .inl (congrArg Prod.snd h).symm
  noteEvent _ _ := rfl

private theorem returns_of_isOk {σ : Type} {x : Except HandlerExc Unit × σ} (h : x.1.isOk = true) :
    ∃ rest, x = (.ok (), rest) := by
  obtain ⟨answer, rest⟩ := x
  cases answer with
  | error e => cases h
  | ok u => exact ⟨rest, rfl⟩

private theorem enforce_calm : Calm (daemonWith recordSample) 8 sampleId enforceRequest monitoring where
  wf := sample_wf
  kernel := trivial
  restored id item target h := by cases h.action
  deleted id item h := by cases h.action
  gone h := by cases h

private theorem enforce_recorded :
    Recorded sampleAccounts (daemonWith recordSample) rootPeer enforceRequest monitoring := by
  intro mode _ _
  have hencoded : (encodeJsonLine (successResponse enforceRequest.requestId (.obj [(py "mode",
      .str (textParam enforceRequest.params (py "mode")))] : Json SampleFloat)).toJson
      maxResponseBytes).isOk = true := by decide +kernel
  exact ⟨returns_of_isOk (by decide +kernel), isOk_iff.1 hencoded⟩

private def failing : World (Audit.Logger × Audit.Dir) SampleFloat :=
  daemonWith fun _ _ _ rest => (.error .other, rest)

end Elyra.Service
