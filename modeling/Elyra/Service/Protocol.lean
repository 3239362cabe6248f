import Elyra.Python.Lines
import Elyra.Quarantine.Record

set_option autoImplicit false

/-! # The IPC protocol

`service/ipc_protocol.py`: one JSON object per line in each direction. A request is decoded and
checked before any privileged code sees it (`decodeRequestLine`), and the parameters handed on are
the normalised ones. `json.loads` is a parameter of decoding, since besides `JSONDecodeError` it
raises exceptions that decoding does not catch; `jsonLoads` is the scanner of `Python/JsonParse`,
which nests to any depth. -/

namespace Elyra.Service

open Elyra.Python

variable {F : Type}

/-- `PROTOCOL_VERSION`. -/
def protocolVersion : Int := 1

/-- `MAX_REQUEST_BYTES`. -/
def maxRequestBytes : Nat := 64 * 1024

/-- `MAX_RESPONSE_BYTES`. -/
def maxResponseBytes : Nat := 2 * 1024 * 1024

/-- `MAX_PATH_CHARACTERS`. -/
def maxPathCharacters : Nat := 4096

/-- `MAX_REQUEST_ID_CHARACTERS`. -/
def maxRequestIdCharacters : Nat := 128

/-- `ProtocolError`. -/
structure ProtocolError where
  code : PyStr
  message : PyStr
  requestId : Option PyStr := none
  deriving DecidableEq, Repr

/-! ## Actions -/

/-- The keys of `_ACTION_PARAMS`. -/
inductive IpcAction where
  | getStatus
  | listEvents
  | listRuntimeStates
  | listQuarantine
  | getPolicy
  | scanFile
  | restoreFile
  | deletePermanently
  | updateEnforcementPolicy
  deriving DecidableEq, Repr

namespace IpcAction

def all : List IpcAction :=
  [.getStatus, .listEvents, .listRuntimeStates, .listQuarantine, .getPolicy, .scanFile,
    .restoreFile, .deletePermanently, .updateEnforcementPolicy]

def name : IpcAction → PyStr
  | .getStatus => py "get_status"
  | .listEvents => py "list_events"
  | .listRuntimeStates => py "list_runtime_states"
  | .listQuarantine => py "list_quarantine"
  | .getPolicy => py "get_policy"
  | .scanFile => py "scan_file"
  | .restoreFile => py "restore_file"
  | .deletePermanently => py "delete_permanently"
  | .updateEnforcementPolicy => py "update_enforcement_policy"

/-- `action in _ACTION_PARAMS`. -/
def ofName (s : PyStr) : Option IpcAction := all.find? fun a => a.name == s

/-- The required parameters. -/
def required : IpcAction → List PyStr
  | .scanFile => [py "path"]
  | .restoreFile => [py "quarantine_id"]
  | .deletePermanently => [py "quarantine_id"]
  | .updateEnforcementPolicy => [py "mode"]
  | _ => []

/-- The optional parameters. -/
def optional : IpcAction → List PyStr
  | .listEvents => [py "limit"]
  | .listRuntimeStates => [py "limit"]
  | .restoreFile => [py "destination"]
  | _ => []

theorem ofName_name (a : IpcAction) : ofName a.name = some a := by
  cases a <;> decide

theorem name_of_ofName {s : PyStr} {a : IpcAction} (h : ofName s = some a) : a.name = s := by
  have hs := List.find?_some h
  simpa using hs

end IpcAction

/-- A request that passed its checks. -/
structure RequestMessage (F : Type) where
  version : Int
  requestId : PyStr
  action : IpcAction
  params : Mapping F

/-! ## Checks -/

/-- `', '.join(sorted(names))`. -/
def joinSorted (names : List PyStr) : PyStr :=
  List.intercalate (py ", ") (names.mergeSort keyLe)

/-- `left - right` on sets of names. -/
def without (left right : List PyStr) : List PyStr := left.filter (· ∉ right)

/-- `_require_plain_object`; a JSON object has string keys. -/
def requirePlainObject (value : Json F) (field : PyStr) : Except ProtocolError (Mapping F) :=
  match value with
  | .obj members => .ok members
  | _ => .error ⟨py "INVALID_SCHEMA", py "'" ++ field ++ py "' must be a JSON object", none⟩

/-- A character of `_REQUEST_ID_PATTERN`. -/
def isRequestIdChar (c : Nat) : Bool :=
  (65 ≤ c && c ≤ 90) || (97 ≤ c && c ≤ 122) || isDigit c || c ∈ py "._:-"

/-- `_validate_request_id`. -/
def validateRequestId : Json F → Except ProtocolError PyStr
  | .str s =>
      if s = [] then
        .error ⟨py "INVALID_REQUEST_ID", py "'request_id' must be a non-empty string", none⟩
      else if s.length > maxRequestIdCharacters ∨ s.all isRequestIdChar = false then
        .error ⟨py "INVALID_REQUEST_ID",
          py "'request_id' contains unsupported characters or is too long", none⟩
      else .ok s
  | _ => .error ⟨py "INVALID_REQUEST_ID", py "'request_id' must be a non-empty string", none⟩

def invalidParameters (message : PyStr) : ProtocolError :=
  ⟨py "INVALID_PARAMETERS", message, none⟩

/-- `'name'` followed by a text. -/
def about (name text : PyStr) : ProtocolError := invalidParameters (py "'" ++ name ++ py "'" ++ text)

/-- `_require_string`; `none` where the value is `None` and that is allowed. -/
def requireString (params : Mapping F) (name : PyStr) (allowNone : Bool) (maxCharacters : Nat) :
    Except ProtocolError (Option PyStr) :=
  match lookup name params, allowNone with
  | none, true => .ok none
  | some .null, true => .ok none
  | some (.str s), _ =>
      if s = [] then .error (about name (py " must be a non-empty string"))
      else if s.length > maxCharacters then .error (about name (py " is too long"))
      else if 0 ∈ s then .error (about name (py " contains a NUL character"))
      else .ok (some s)
  | _, _ => .error (about name (py " must be a non-empty string"))

/-- `_validate_quarantine_id`. -/
def validateIpcQuarantineId : Option PyStr → Except ProtocolError PyStr
  | none => .error (about (py "quarantine_id") (py " is required"))
  | some value =>
      if Quarantine.isUuid value then .ok value
      else if Quarantine.parsesAsUuid value then
        .error (about (py "quarantine_id") (py " must use canonical UUID form"))
      else .error (about (py "quarantine_id") (py " must be a UUID"))

def startsWithSlash (s : PyStr) : Bool := s.head? == some 47

/-- `limit`, 50 where it is absent. -/
def validateLimit (params : Mapping F) : Except ProtocolError (Mapping F) :=
  match (lookup (py "limit") params).getD (.int 50) with
  | .int n =>
      if 1 ≤ n ∧ n ≤ 200 then .ok (assign (py "limit") (.int n) params)
      else .error (about (py "limit") (py " must be an integer from 1 to 200"))
  | _ => .error (about (py "limit") (py " must be an integer from 1 to 200"))

def validateScanPath (params : Mapping F) : Except ProtocolError (Mapping F) := do
  match ← requireString params (py "path") false maxPathCharacters with
  | some path =>
      if startsWithSlash path then return assign (py "path") (.str path) params
      else throw (about (py "path") (py " must be absolute"))
  | none => throw (about (py "path") (py " must be absolute"))

def validateQuarantineIdParam (params : Mapping F) : Except ProtocolError (Mapping F) := do
  let id ← validateIpcQuarantineId (← requireString params (py "quarantine_id") false 64)
  return assign (py "quarantine_id") (.str id) params

def validateDestination (params : Mapping F) : Except ProtocolError (Mapping F) := do
  match ← requireString params (py "destination") true maxPathCharacters with
  | none => return assign (py "destination") .null params
  | some destination =>
      if startsWithSlash destination then
        return assign (py "destination") (.str destination) params
      else throw (about (py "destination") (py " must be absolute"))

def validateMode (params : Mapping F) : Except ProtocolError (Mapping F) := do
  match ← requireString params (py "mode") false 32 with
  | some mode =>
      if mode ∈ [py "MONITOR_ONLY", py "ENFORCEMENT"] then
        return assign (py "mode") (.str mode) params
      else throw (about (py "mode") (py " must be MONITOR_ONLY or ENFORCEMENT"))
  | none => throw (about (py "mode") (py " must be MONITOR_ONLY or ENFORCEMENT"))

/-- The checks and defaults of one action's parameters. -/
def normalizeParams (a : IpcAction) (params : Mapping F) : Except ProtocolError (Mapping F) :=
  match a with
  | .listEvents => validateLimit params
  | .listRuntimeStates => validateLimit params
  | .scanFile => validateScanPath params
  | .restoreFile => do
      let params ← validateQuarantineIdParam params
      validateDestination params
  | .deletePermanently => validateQuarantineIdParam params
  | .updateEnforcementPolicy => validateMode params
  | _ => .ok params

/-- `if not ok: raise e`. -/
def ensure (ok : Prop) [Decidable ok] (e : ProtocolError) : Except ProtocolError Unit :=
  if ok then .ok () else .error e

/-- The row of `_ACTION_PARAMS`. -/
def requireAction (action : PyStr) : Except ProtocolError IpcAction :=
  match IpcAction.ofName action with
  | some a => .ok a
  | none => .error ⟨py "UNKNOWN_ACTION", py "Unsupported action: " ++ action, none⟩

/-- `validate_action_params`. -/
def validateActionParams (action : PyStr) (params : Mapping F) :
    Except ProtocolError (IpcAction × Mapping F) := do
  let a ← requireAction action
  let missing := without a.required (keys params)
  let unknown := without (without (keys params) a.required) a.optional
  ensure (missing = []) (invalidParameters (py "Missing parameter(s): " ++ joinSorted missing))
  ensure (unknown = []) (invalidParameters (py "Unknown parameter(s): " ++ joinSorted unknown))
  let normalized ← normalizeParams a params
  return (a, normalized)

/-- `allowed_fields`. -/
def requestFields : List PyStr := [py "version", py "request_id", py "action", py "params"]

/-- `value == PROTOCOL_VERSION`, which `True` and `1.0` satisfy as well. -/
def isProtocolVersion [PyFloat F] : Json F → Bool
  | .int n => n == protocolVersion
  | .bool b => b
  | .float f => PyFloat.finite f && PyFloat.repr f == py "1.0"
  | _ => false

/-- The field that the check of the missing ones has found. -/
def field (request : Mapping F) (name : PyStr) : Json F := (lookup name request).getD .null

/-- The check of `action`. -/
def requireActionName (value : Json F) (requestId : PyStr) : Except ProtocolError PyStr :=
  match value with
  | .str (c :: action) => .ok (c :: action)
  | _ => .error ⟨py "INVALID_SCHEMA", py "'action' must be a non-empty string", some requestId⟩

/-- `except ProtocolError as exc: exc.request_id = request_id; raise`. -/
def withRequestId {α : Type} (requestId : PyStr) (x : Except ProtocolError α) :
    Except ProtocolError α :=
  match x with
  | .ok a => .ok a
  | .error e => .error { e with requestId := some requestId }

/-- `validate_request_object`. -/
def validateRequestObject [PyFloat F] (value : Json F) :
    Except ProtocolError (RequestMessage F) := do
  let request ← requirePlainObject value (py "request")
  let unknown := without (keys request) requestFields
  let missing := without requestFields (keys request)
  ensure (missing = [])
    ⟨py "INVALID_SCHEMA", py "Missing field(s): " ++ joinSorted missing, none⟩
  ensure (unknown = [])
    ⟨py "INVALID_SCHEMA", py "Unknown field(s): " ++ joinSorted unknown, none⟩
  let requestId ← validateRequestId (field request (py "request_id"))
  ensure (isProtocolVersion (field request (py "version")) = true)
    ⟨py "UNSUPPORTED_VERSION",
      py "Protocol version " ++ intText protocolVersion ++ py " is required", some requestId⟩
  let action ← requireActionName (field request (py "action")) requestId
  let params ← requirePlainObject (field request (py "params")) (py "params")
  let (a, params) ← withRequestId requestId (validateActionParams action params)
  return ⟨protocolVersion, requestId, a, params⟩

/-! ## Lines -/

/-- The exceptions `json.loads` raises. -/
inductive LoadsExc where
  | jsonDecodeError
  /-- An integer literal beyond the digit limit. -/
  | valueError
  /-- Nesting beyond the limit of the interpreter. -/
  | recursionError
  deriving DecidableEq, Repr

abbrev Loads (F : Type) := PyStr → Except LoadsExc (Json F)

def jsonLoads [PyFloat F] : Loads F := fun text =>
  match loads text with
  | .ok v => .ok v
  | .error .jsonDecodeError => .error .jsonDecodeError
  | .error .valueError => .error .valueError

/-- How decoding fails: by the error for the client, or by an exception that leaves it. -/
inductive DecodeExc where
  | protocol (e : ProtocolError)
  | raised (e : LoadsExc)
  deriving DecidableEq, Repr

/-- `decode_request_line`. -/
def decodeRequestLine [PyFloat F] (parse : Loads F) (line : Bytes) :
    Except DecodeExc (RequestMessage F) :=
  if line = [] then .error (.protocol ⟨py "EMPTY_MESSAGE", py "Request line is empty", none⟩)
  else if line.length > maxRequestBytes then
    .error (.protocol ⟨py "MESSAGE_TOO_LARGE", py "Request exceeds the size limit", none⟩)
  else
    match decodeUtf8 line with
    | none => .error (.protocol ⟨py "INVALID_UTF8", py "Request is not valid UTF-8", none⟩)
    | some text =>
        match parse text with
        | .error .jsonDecodeError =>
            .error (.protocol ⟨py "INVALID_JSON", py "Request is not valid JSON", none⟩)
        | .error e => .error (.raised e)
        | .ok value =>
            match validateRequestObject value with
            | .error e => .error (.protocol e)
            | .ok request => .ok request

/-- `encode_json_line`; the error's code and message. -/
def encodeJsonLine [PyFloat F] (value : Json F) (maximum : Nat) : Except ProtocolError Bytes :=
  match (dumps .compact false value).bind encodeUtf8 with
  | none => .error ⟨py "SERIALIZATION_FAILED", py "Response is not JSON serializable", none⟩
  | some data =>
      if (data ++ [lf]).length > maximum then
        .error ⟨py "MESSAGE_TOO_LARGE", py "Encoded message exceeds the size limit", none⟩
      else .ok (data ++ [lf])

/-- `build_request`, with the fresh id. -/
def buildRequest [PyFloat F] (requestId action : PyStr) (params : Option (Mapping F)) :
    Except ProtocolError (RequestMessage F) :=
  validateRequestObject (.obj
    [(py "version", .int protocolVersion), (py "request_id", .str requestId),
      (py "action", .str action), (py "params", .obj (params.getD []))])

/-- The dictionary `build_request` returns. -/
def RequestMessage.toJson (r : RequestMessage F) : Json F :=
  .obj [(py "version", .int r.version), (py "request_id", .str r.requestId),
    (py "action", .str r.action.name), (py "params", .obj r.params)]

/-! ## Responses -/

/-- The `error` member of a response. -/
structure RemoteError where
  code : PyStr
  message : PyStr
  deriving DecidableEq, Repr

/-- A response object: its id, and the result or the error. -/
structure Response (F : Type) where
  requestId : Option PyStr
  outcome : Except RemoteError (Json F)

/-- `success_response`. -/
def successResponse (requestId : PyStr) (result : Json F) : Response F := ⟨some requestId, .ok result⟩

/-- `error_response`. -/
def errorResponse (requestId : Option PyStr) (code message : PyStr) : Response F :=
  ⟨requestId, .error ⟨code, message⟩⟩

def requestIdJson : Option PyStr → Json F
  | none => .null
  | some id => .str id

def Response.toJson (r : Response F) : Json F :=
  match r.outcome with
  | .ok result => .obj [(py "version", .int protocolVersion),
      (py "request_id", requestIdJson r.requestId), (py "ok", .bool true), (py "result", result)]
  | .error e => .obj [(py "version", .int protocolVersion),
      (py "request_id", requestIdJson r.requestId), (py "ok", .bool false),
      (py "error", .obj [(py "code", .str e.code), (py "message", .str e.message)])]

end Elyra.Service
