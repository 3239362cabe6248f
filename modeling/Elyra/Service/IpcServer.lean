import Elyra.Service.Authorization

set_option autoImplicit false

/-! # The IPC server

One connection of `service/ipc_server.py`, from `accept` to the end of its thread. What the socket
answers is a list of `Recv`; what the rest of the daemon does is in a state `σ` that the handler and
the socket pass on. A connection's history is the lines given to `_process_line` and the responses
given to `_send_response`, in order. -/

namespace Elyra.Service

open Elyra.Python

variable {σ F : Type}

/-! ## Processing a line -/

/-- What the daemon's handler raises, as the clauses of `_process_line` tell it apart. -/
inductive HandlerExc where
  /-- `AuthorizationError`, with its text. -/
  | authorization (text : PyStr)
  /-- `FileNotFoundError` and `KeyError`. -/
  | notFound
  | value (text : PyStr)
  | other
  deriving DecidableEq, Repr

/-- `self.handler`. -/
abbrev Handler (σ F : Type) :=
  IpcAction → Mapping F → Requester → σ → Except HandlerExc (Json F) × σ

/-- The response to an exception of the handler. -/
def handlerFailure (requestId : PyStr) : HandlerExc → Response F
  | .authorization text => errorResponse (some requestId) (py "AUTHORIZATION_DENIED") text
  | .notFound =>
      errorResponse (some requestId) (py "NOT_FOUND") (py "Requested resource was not found")
  | .value text => errorResponse (some requestId) (py "INVALID_PARAMETERS") text
  | .other => errorResponse (some requestId) (py "OPERATION_FAILED")
      (py "The requested operation failed; see the daemon audit log")

/-- What leaves `_process_line`. -/
inductive LineExc where
  /-- An exception of `json.loads` other than `JSONDecodeError`. -/
  | loads (e : LoadsExc)
  /-- The `OverflowError` of the authoriser. -/
  | overflow
  deriving DecidableEq, Repr

/-- A request that was decoded. -/
def processRequest (db : Accounts) (handler : Handler σ F) (request : RequestMessage F)
    (r : Requester) (s : σ) : Except LineExc (Response F) × σ :=
  match authorize db r request.action with
  | .error .overflow => (.error .overflow, s)
  | .error (.denied text) =>
      (.ok (errorResponse (some request.requestId) (py "AUTHORIZATION_DENIED") text), s)
  | .ok _ =>
      match handler request.action request.params r s with
      | (.error e, s) => (.ok (handlerFailure request.requestId e), s)
      | (.ok result, s) => (.ok (successResponse request.requestId result), s)

/-- `_process_line`. -/
def processLine [PyFloat F] (parse : Loads F) (db : Accounts) (handler : Handler σ F)
    (r : Requester) (line : Bytes) (s : σ) : Except LineExc (Response F) × σ :=
  match decodeRequestLine parse line with
  | .error (.protocol e) => (.ok (errorResponse e.requestId e.code e.message), s)
  | .error (.raised e) => (.error (.loads e), s)
  | .ok request => processRequest db handler request r s

/-- The bytes `_send_response` sends for a response. -/
def wire [PyFloat F] (response : Response F) : Except ProtocolError Bytes :=
  match encodeJsonLine response.toJson maxResponseBytes with
  | .ok data => .ok data
  | .error _ =>
      encodeJsonLine (F := F)
        (errorResponse response.requestId (py "RESPONSE_TOO_LARGE")
          (py "The daemon result exceeds the IPC response limit")).toJson maxResponseBytes

/-! ## A connection -/

/-- What a turn of the loop of `_handle_client` meets. -/
inductive Recv where
  /-- `recv` returns these bytes; none at the end of the stream. -/
  | chunk (data : Bytes)
  | timeout
  /-- `recv` raises another error, which ends the thread. -/
  | reset
  /-- The server is stopping. -/
  | stopped
  deriving DecidableEq, Repr

inductive Event (F : Type) where
  /-- A line was given to `_process_line`. -/
  | processed (line : Bytes)
  /-- A response was given to `_send_response`. -/
  | sent (response : Response F)

/-- `_process_line` for the peer of the connection, and `_send_response`, which tells whether the
    response could be sent. -/
structure Connection (σ F : Type) where
  process : Bytes → σ → Except LineExc (Response F) × σ
  send : Response F → σ → Bool × σ

/-- The state and what has happened on the connection. -/
structure Session (σ F : Type) where
  state : σ
  events : List (Event F) := []

namespace Session

variable (c : Connection σ F)

/-- `_send_response`. -/
def send (response : Response F) (s : Session σ F) : Bool × Session σ F :=
  let (ok, state) := c.send response s.state
  (ok, ⟨state, s.events ++ [.sent response]⟩)

/-- `_process_line`. -/
def process (line : Bytes) (s : Session σ F) : Except LineExc (Response F) × Session σ F :=
  let (response, state) := c.process line s.state
  (response, ⟨state, s.events ++ [.processed line]⟩)

end Session

def serverBusy : Response F :=
  errorResponse none (py "SERVER_BUSY") (py "Too many concurrent IPC clients")

def peerCredentialsUnavailable : Response F :=
  errorResponse none (py "PEER_CREDENTIALS_UNAVAILABLE") (py "Peer identity is unavailable")

def requestTimeout : Response F :=
  errorResponse none (py "REQUEST_TIMEOUT") (py "IPC request timed out")

def incompleteMessage : Response F :=
  errorResponse none (py "INCOMPLETE_MESSAGE") (py "Request was not newline terminated")

def messageTooLarge : Response F :=
  errorResponse none (py "MESSAGE_TOO_LARGE") (py "Request exceeds the size limit")

section Serve

variable (c : Connection σ F)

/-- The loop over the complete lines of the buffer: what is left in it, or `none` where the
    connection ends. Each line takes its line feed out of the buffer, so the length of the buffer
    bounds the number of turns. -/
def drain : Nat → Bytes → Session σ F → Option Bytes × Session σ F
  | 0, buffer, s => (some buffer, s)
  | fuel + 1, buffer, s =>
      match splitLf buffer with
      | none => (some buffer, s)
      | some (line, remainder) =>
          match s.process c line with
          | (.error _, s) => (none, s)
          | (.ok response, s) =>
              match s.send c response with
              | (false, s) => (none, s)
              | (true, s) =>
                  if remainder.length > maxRequestBytes then (none, (s.send c messageTooLarge).2)
                  else drain fuel remainder s

/-- The loop of `_handle_client` over what the socket answers. -/
def serve : List Recv → Bytes → Session σ F → Session σ F
  | [], _, s => s
  | .stopped :: _, _, s => s
  | .reset :: _, _, s => s
  | .timeout :: _, _, s => (s.send c requestTimeout).2
  | .chunk data :: rest, buffer, s =>
      if data = [] then
        if buffer = [] then s else (s.send c incompleteMessage).2
      else if (buffer ++ data).length > maxRequestBytes ∧ lf ∉ buffer ++ data then
        (s.send c messageTooLarge).2
      else
        match drain c (buffer ++ data).length (buffer ++ data) s with
        | (none, s) => s
        | (some buffer, s) => serve rest buffer s

end Serve

/-- What a new connection meets. -/
inductive Admission where
  /-- All slots are taken. -/
  | busy
  /-- `SO_PEERCRED` fails. -/
  | unknownPeer
  | served (r : Requester)
  deriving DecidableEq, Repr

/-- A connection from `accept` on. -/
def handleConnection (process : Requester → Bytes → σ → Except LineExc (Response F) × σ)
    (send : Response F → σ → Bool × σ) (admission : Admission) (answers : List Recv) (state : σ) :
    Session σ F :=
  match admission with
  | .busy => ⟨(send serverBusy state).2, [.sent serverBusy]⟩
  | .unknownPeer => ⟨(send peerCredentialsUnavailable state).2, [.sent peerCredentialsUnavailable]⟩
  | .served r => serve ⟨process r, send⟩ answers [] ⟨state, []⟩

end Elyra.Service
