import Elyra.Service.IpcServer
import Elyra.Fanotify.Policy
import Elyra.Quarantine.Manager
import Elyra.Response.Engine

set_option autoImplicit false

/-! # The daemon's IPC handler

`_handle_ipc_action` of `service/daemon.py`, with `restore` and `delete_permanently` of
`response/engine.py`. The state is what the sensitive actions change, the enforcement mode and the
files, and the rest of the daemon: the audit log, the recent events, the correlation engine. What a
request meets outside of that state is its `World`: the kernel's answers, one for each call in turn,
and the components that only act on the rest.

Restoring, deleting and switching the mode commit first and write their audit record afterwards. The
manager's own record is written through `_audit`, which swallows every exception; those of
`_result` and of the policy branch are raised to the client. -/

namespace Elyra.Service

open Elyra.Python Elyra.Posix Elyra.Quarantine Elyra.Fanotify

variable {R F : Type}

/-- What the IPC handler works on. -/
structure Shared (R : Type) where
  mode : Mode
  files : Files Path
  rest : R

/-- The kernel's answer to the `n`th call of a request. -/
abbrev Kernel (F : Type) :=
  Nat → (c : (interface F).Call) → Files Path →
    Except (interface F).Failure ((interface F).Answer c) × Files Path

/-- What a request meets. -/
structure World (R F : Type) where
  kernel : Kernel F
  manager : Manager
  /-- The stems of `sorted(metadata_dir.glob("*.json"))`. -/
  glob : Files Path → List PyStr
  /-- `sorted(records, key=lambda item: item.timestamp, reverse=True)`. -/
  newestFirst : List (QuarantineRecord F) → Except Quarantine.Exc (List (QuarantineRecord F))
  /-- `state.snapshot(...)` and `audit_log.status()`; the summary expires old states. -/
  getStatus : R → Json F × R
  /-- `state.recent(limit)`. -/
  recent : Int → R → List (Json F)
  /-- `execution_correlation.list_states(limit)`. -/
  listStates : Int → R → List (Json F) × R
  /-- The members of `get_policy` besides the mode. -/
  policyFields : Mapping F
  /-- `authorize_manual_scan_path`, `static_scanner.scan` and `scoring_engine.score`. -/
  scan : Requester → PyStr → Files Path → R → Except HandlerExc (Json F) × R
  /-- `audit_log.record(source, action, payload)`. -/
  record : PyStr → PyStr → Mapping F → R → Except HandlerExc Unit × R
  /-- `event_sink`. -/
  noteEvent : Mapping F → R → R
  /-- The id and the time of a response result. -/
  stamp : Response.Stamp F

/-- `set_mode`; `none` is the `ValueError`. -/
def setMode (mode : PyStr) : Option Mode :=
  if upper mode = Mode.monitorOnly.text then some .monitorOnly
  else if upper mode = Mode.enforcement.text then some .enforcement
  else none

/-- An exception of the manager, as `_process_line` sees it. -/
def ofQuarantine (str : Quarantine.Exc → PyStr) : Quarantine.Exc → HandlerExc
  | .os .noEntry => .notFound
  | .os _ => .other
  | .type => .other
  | .error _ _ => .other
  | e => .value (str e)

/-- `isinstance(exc, QuarantineError)`. -/
def isQuarantineError : Quarantine.Exc → Bool
  | .error _ _ => true
  | _ => false

/-! ## Listing -/

section Listing

variable [FloatNum F]

/-- The loop of `list_quarantine`: the records, and the errors of the files that hold none. -/
def loadAll (m : Manager) : List PyStr → Prog F (List (QuarantineRecord F) × List PyStr)
  | [] => .done ([], [])
  | stem :: stems => do
      let loaded : Except PyStr (QuarantineRecord F) ←
        (do
          let r ← loadMetadata m (.str stem)
          return .ok r : Prog F (Except PyStr (QuarantineRecord F))).orElse fun e =>
          match e with
          | .error .metadata text => .done (.error (stem ++ py ".json: " ++ text))
          | e => .raise e
      let (records, errors) ← loadAll m stems
      match loaded with
      | .ok r => return (r :: records, errors)
      | .error text => return (records, text :: errors)

/-- `list_quarantine(strict=True)`. -/
def listQuarantine (w : World R F) (stems : List PyStr) : Prog F (List (QuarantineRecord F)) := do
  let (records, errors) ← loadAll w.manager stems
  check (errors = []) (.error .metadata (List.intercalate (py "; ") errors))
  lift (w.newestFirst records)

end Listing

/-! ## The response engine -/

section Response

variable [FloatNum F]

/-- The state `restore` and `delete_permanently` hand to `_result`. -/
def synthetic (action : PyStr) (pid : Int) : Mapping F :=
  [(py "correlation_id", .null), (py "recommended_action", .str action),
    (py "combined_score", .int 0), (py "pid", .int pid)]

/-- `_result`: the result is audited, then shown to the event sink. -/
def finishResult (w : World R F) (action : PyStr) (pid : Int) (report : Response.Report F) (rest : R) :
    Except HandlerExc (Mapping F) × R :=
  match Response.result w.stamp (synthetic action pid) report with
  | .error _ => (.error .other, rest)
  | .ok result =>
      match w.record (py "response") (action.map fun c => if 65 ≤ c ∧ c ≤ 90 then c + 32 else c)
          result.toDict rest with
      | (.error e, rest) => (.error e, rest)
      | (.ok _, rest) =>
          (.ok result.toDict,
            w.noteEvent ((py "source", .str (py "response")) :: result.toDict) rest)

attribute [grind =] finishResult

/-- The manager's `_audit`. -/
def auditQuarantine (w : World R F) (target : PyStr) (details : Mapping F) (rest : R) : R :=
  (w.record (py "quarantine") target details rest).2

/-- A JSON string, or nothing. -/
def textOf : Json F → PyStr
  | .str s => s
  | _ => []

/-- `ResponseEngine.restore`, once `restore_file` has ended. -/
def restoreResult (w : World R F) (id actor : PyStr) (pid : Int)
    (ended : Except Quarantine.Exc (QuarantineRecord F)) (rest : R) :
    Except HandlerExc (Json F) × R :=
  let report (status : Response.Status) (reason : PyStr) (details : Mapping F)
      (failure : Option PyStr) : Response.Report F :=
    { requested := py "RESTORE"
      executed := py "RESTORE"
      status := status
      reason := reason
      details := (py "actor", .str actor) :: details
      failure := failure }
  match ended with
  | .ok r =>
      let rest := auditQuarantine w (textOf r.restoredPath)
        ((py "action", .str (py "restore")) :: r.toDict) rest
      match finishResult w (py "RESTORE") pid
          (report .succeeded (py "An authorised quarantine restoration completed")
            [(py "quarantine_record", .obj r.toDict)] none) rest with
      | (.error e, rest) => (.error e, rest)
      | (.ok result, rest) =>
          (.ok (.obj (r.toDict ++ [(py "response_action", .obj result)])), rest)
  | .error e =>
      if isQuarantineError e then
        match finishResult w (py "RESTORE") pid
            (report .failed (py "Authorised restoration failed safely")
              [(py "quarantine_id", .str id)] (some (w.manager.str e))) rest with
        | (.error e, rest) => (.error e, rest)
        | (.ok _, rest) => (.error (ofQuarantine w.manager.str e), rest)
      else (.error (ofQuarantine w.manager.str e), rest)

/-- `ResponseEngine.delete_permanently`, once the manager's method has ended. -/
def deleteResult (w : World R F) (id actor : PyStr) (pid : Int)
    (ended : Except Quarantine.Exc (Option (QuarantineRecord F))) (rest : R) :
    Except HandlerExc (Json F) × R :=
  let report (status : Response.Status) (reason : PyStr) (failure : Option PyStr) :
      Response.Report F :=
    { requested := py "DELETE_PERMANENTLY"
      executed := py "DELETE_PERMANENTLY"
      status := status
      reason := reason
      details := [(py "actor", .str actor), (py "quarantine_id", .str id)]
      failure := failure }
  match ended with
  | .ok deleted =>
      let rest :=
        match deleted with
        | none => rest
        | some r => auditQuarantine w (textOf r.originalPath)
            ((py "action", .str (py "delete")) :: r.toDict) rest
      match finishResult w (py "DELETE_PERMANENTLY") pid
          (report .succeeded (py "An authorised permanent quarantine deletion completed") none)
          rest with
      | (.error e, rest) => (.error e, rest)
      | (.ok result, rest) =>
          (.ok (.obj [(py "deleted", .bool true), (py "response_action", .obj result)]), rest)
  | .error e =>
      if isQuarantineError e then
        match finishResult w (py "DELETE_PERMANENTLY") pid
            (report .failed (py "Authorised permanent deletion failed safely")
              (some (w.manager.str e))) rest with
        | (.error e, rest) => (.error e, rest)
        | (.ok _, rest) => (.error (ofQuarantine w.manager.str e), rest)
      else (.error (ofQuarantine w.manager.str e), rest)

end Response

/-! ## The handler -/

section Handler

variable [FloatNum F]

/-- `int(params["limit"])`. -/
def limitOf (params : Mapping F) : Int :=
  match lookup (py "limit") params with
  | some (.int n) => n
  | _ => 0

/-- `str(params[name])`. -/
def textParam (params : Mapping F) (name : PyStr) : PyStr :=
  ((lookup name params).map pyStr).getD []

/-- `params.get("destination")`. -/
def destinationOf (params : Mapping F) : Option PyStr :=
  match lookup (py "destination") params with
  | some (.str s) => some s
  | _ => none

/-- `_handle_ipc_action`. -/
def handleIpcAction (db : Accounts) (w : World R F) : Handler (Shared R) F := fun a params r s =>
  match a with
  | .getStatus =>
      let (status, rest) := w.getStatus s.rest
      (.ok status, { s with rest := rest })
  | .listEvents => (.ok (.obj [(py "events", .arr (w.recent (limitOf params) s.rest))]), s)
  | .listRuntimeStates =>
      let (states, rest) := w.listStates (limitOf params) s.rest
      (.ok (.obj [(py "states", .arr states)]), { s with rest := rest })
  | .listQuarantine =>
      let (listed, files) := (listQuarantine w (w.glob s.files)).execute w.kernel 0 s.files
      match listed with
      | .ok records =>
          (.ok (.obj [(py "items", .arr (records.map fun r => .obj r.toDict))]),
            { s with files := files })
      | .error e => (.error (ofQuarantine w.manager.str e), { s with files := files })
  | .getPolicy => (.ok (.obj ((py "mode", .str s.mode.text) :: w.policyFields)), s)
  | .scanFile =>
      let (result, rest) := w.scan r (textParam params (py "path")) s.files s.rest
      (result, { s with rest := rest })
  | .restoreFile =>
      let id := textParam params (py "quarantine_id")
      let (ended, files) :=
        (restoreFile w.manager (.str id) (destinationOf params)).execute w.kernel 0 s.files
      let (result, rest) := restoreResult w id (r.username db) r.pid ended s.rest
      (result, { s with files := files, rest := rest })
  | .deletePermanently =>
      let id := textParam params (py "quarantine_id")
      let (ended, files) := (deletePermanently w.manager (.str id)).execute w.kernel 0 s.files
      let (result, rest) := deleteResult w id (r.username db) r.pid ended s.rest
      (result, { s with files := files, rest := rest })
  | .updateEnforcementPolicy =>
      let text := textParam params (py "mode")
      match setMode text with
      | none => (.error (.value (py "unsupported fanotify mode: " ++ upper text)), s)
      | some mode =>
          match w.record (py "policy") (py "enforcement_mode")
              [(py "changed_by", .str (r.username db)), (py "requester_pid", .int r.pid),
                (py "new_mode", .str text)] s.rest with
          | (.error e, rest) => (.error e, { s with mode := mode, rest := rest })
          | (.ok _, rest) =>
              (.ok (.obj [(py "mode", .str text)]), { s with mode := mode, rest := rest })

end Handler

end Elyra.Service
