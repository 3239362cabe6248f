import Elyra.Service.Framing
import Elyra.Service.Requests

set_option autoImplicit false

/-! # The IPC client

`service/ipc_client.py` against the server: the client sends one request on a connection and reads
one line. A response carries the id of the request only where the server has read the request, and
the client takes an answer without its id for a protocol error (`client_understands_iff`). -/

namespace Elyra.Service

open Elyra.Python

variable {σ F : Type}

/-! ## The client -/

inductive ClientExc where
  /-- `ProtocolError`, before anything is sent. -/
  | protocol (e : ProtocolError)
  /-- `IpcClientError` for a failure of the connection. -/
  | connection
  /-- `IpcClientError` with its text. -/
  | client (text : PyStr)
  /-- `IpcRemoteError`. -/
  | remote (code message : PyStr)
  /-- An exception of `json.loads` that the client does not catch. -/
  | raised (e : LoadsExc)
  deriving DecidableEq, Repr

/-- The loop of `_receive_line`: the first line, and what came after it. -/
def receiveUntilLf : Bytes → List Recv → Except ClientExc (Bytes × Bytes)
  | buffer, [] =>
      match splitLf buffer with
      | some p => .ok p
      | none => .error .connection
  | buffer, answer :: answers =>
      match splitLf buffer, answer with
      | some p, _ => .ok p
      | none, .chunk data =>
          if data = [] then
            .error (.client (py "Daemon closed the connection before a response"))
          else if (buffer ++ data).length > maxResponseBytes then
            .error (.client (py "Daemon response exceeds the size limit"))
          else receiveUntilLf (buffer ++ data) answers
      | none, _ => .error .connection

/-- `_receive_line`. -/
def receiveLine (parse : Loads F) (answers : List Recv) : Except ClientExc (Json F) :=
  match receiveUntilLf [] answers with
  | .error e => .error e
  | .ok (line, remainder) =>
      if remainder ≠ [] then
        .error (.client (py "Daemon sent unexpected data after the response"))
      else
        match decodeUtf8 line with
        | none => .error (.client (py "Daemon response is not valid UTF-8 JSON"))
        | some text =>
            match parse text with
            | .ok v => .ok v
            | .error .jsonDecodeError =>
                .error (.client (py "Daemon response is not valid UTF-8 JSON"))
            | .error e => .error (.raised e)

/-- `value == request["request_id"]`. -/
def isRequestId (id : PyStr) : Option (Json F) → Bool
  | some (.str s) => s == id
  | _ => false

def isTrue : Option (Json F) → Bool
  | some (.bool true) => true
  | _ => false

section Client

variable [FloatNum F]

/-- What `request` makes of the response. -/
def checkResponse (id : PyStr) (response : Json F) : Except ClientExc (Json F) :=
  match response with
  | .obj members =>
      if ((lookup (py "version") members).any isProtocolVersion) = false then
        .error (.client (py "Daemon returned an unsupported protocol version"))
      else if isRequestId id (lookup (py "request_id") members) = false then
        .error (.client (py "Daemon response request_id does not match"))
      else if isTrue (lookup (py "ok") members) then
        .ok ((lookup (py "result") members).getD .null)
      else
        match lookup (py "error") members with
        | some (.obj error) =>
            .error (.remote
              (pyStr ((lookup (py "code") error).getD (.str (py "REMOTE_ERROR"))))
              (pyStr ((lookup (py "message") error).getD
                (.str (py "The daemon rejected the request")))))
        | _ => .error (.client (py "Daemon returned a malformed error response"))
  | _ => .error (.client (py "Daemon response is not a JSON object"))

/-- The request `IpcClient.request` sends, and its bytes. -/
def clientLine (requestId action : PyStr) (params : Option (Mapping F)) :
    Except ProtocolError (RequestMessage F × Bytes) := do
  let request ← buildRequest requestId action params
  let encoded ← encodeJsonLine request.toJson (64 * 1024)
  return (request, encoded)

/-- `IpcClient.request`, with what the socket answers once the request is sent. -/
def clientRequest (parse : Loads F) (requestId action : PyStr) (params : Option (Mapping F))
    (answers : List Recv) : Except ClientExc (Json F) :=
  match clientLine requestId action params with
  | .error e => .error (.protocol e)
  | .ok (request, _) =>
      match receiveLine parse answers with
      | .error e => .error e
      | .ok response => checkResponse request.requestId response

end Client

/-! ## Reading a response -/

/-- The response that is sent: the given one, or the fallback where that cannot be encoded. -/
def delivered [PyFloat F] (response : Response F) : Response F :=
  match encodeJsonLine response.toJson maxResponseBytes with
  | .ok _ => response
  | .error _ => errorResponse response.requestId (py "RESPONSE_TOO_LARGE")
      (py "The daemon result exceeds the IPC response limit")

theorem wire_eq [PyFloat F] (response : Response F) :
    wire response = encodeJsonLine (delivered response).toJson maxResponseBytes := by
  unfold wire delivered
  cases h : encodeJsonLine response.toJson maxResponseBytes with
  | ok data => exact h.symm
  | error e => rfl

theorem delivered_requestId [PyFloat F] (response : Response F) :
    (delivered response).requestId = response.requestId := by
  unfold delivered
  split <;> rfl

/-- What the client has to make of a response: the result, or the server's error. -/
def Understood [PyFloat F] (response : Response F) (outcome : Except ClientExc (Json F)) : Prop :=
  match (delivered response).outcome with
  | .ok result => outcome = .ok result
  | .error e => outcome = .error (.remote e.code e.message)

/-- The chunks of a line put together are the line. -/
theorem receiveUntilLf_eq {line : Bytes} (hline : lf ∉ line) (hlen : line.length < maxResponseBytes)
    (chunks : List Bytes) (hchunks : Chunked chunks) (rest : List Recv) (buffer : Bytes)
    (hbuffer : lf ∉ buffer) (heq : buffer ++ chunks.flatten = line ++ [lf]) :
    receiveUntilLf buffer (chunks.map .chunk ++ rest) = .ok (line, []) := by
  induction chunks generalizing buffer with
  | nil =>
      rw [List.flatten_nil, List.append_nil] at heq
      exact absurd (heq ▸ List.mem_append_right line (List.mem_singleton.2 rfl)) hbuffer
  | cons chunk chunks ih =>
      obtain ⟨hne, -⟩ := hchunks chunk (List.mem_cons_self ..)
      have hlater : Chunked chunks := fun c hc => hchunks c (List.mem_cons_of_mem _ hc)
      rw [List.flatten_cons, ← List.append_assoc] at heq
      have hlength := congrArg List.length heq
      simp only [List.length_append, List.length_cons, List.length_nil] at hlength
      have hfits : ¬ (buffer ++ chunk).length > maxResponseBytes := by
        rw [List.length_append]
        omega
      simp only [List.map_cons, List.cons_append, receiveUntilLf, splitLf_eq_none.2 hbuffer,
        if_neg hne, if_neg hfits]
      by_cases hlf : lf ∈ buffer ++ chunk
      · -- the line feed is the last byte, so no chunk comes after this one
        cases hsplit : splitLf (buffer ++ chunk) with
        | none => exact absurd hlf (splitLf_eq_none.1 hsplit)
        | some p =>
            obtain ⟨first, after⟩ := p
            obtain ⟨hfirst, hnone⟩ := splitLf_eq_some hsplit
            have hwhole := splitLf_line hnone (after ++ chunks.flatten)
            rw [← List.cons_append, ← List.append_assoc, ← hfirst, heq, splitLf_line hline] at hwhole
            simp only [Option.some.injEq, Prod.mk.injEq] at hwhole
            obtain ⟨rfl, hempty⟩ := hwhole
            obtain ⟨rfl, -⟩ := List.append_eq_nil_iff.1 hempty.symm
            cases hanswers : chunks.map Recv.chunk ++ rest with
            | nil => simp only [receiveUntilLf, hsplit]
            | cons answer answers => simp only [receiveUntilLf, hsplit]
      · exact ih hlater _ hlf heq

section Reading

variable [FloatNum F]

/-- The result of a response is a Python value: no dictionary repeats a key. -/
def Response.WF (response : Response F) : Prop :=
  match response.outcome with
  | .ok result => result.WF
  | .error _ => True

omit [FloatNum F] in
theorem Response.WF.toJson {response : Response F} (h : response.WF) : response.toJson.WF := by
  obtain ⟨requestId, outcome⟩ := response
  have hid : (requestIdJson requestId : Json F).WF := by
    cases requestId <;> trivial
  have hok : [py "version", py "request_id", py "ok", py "result"].Nodup := by decide
  have herror : [py "version", py "request_id", py "ok", py "error"].Nodup := by decide
  have hmembers : [py "code", py "message"].Nodup := by decide
  cases outcome with
  | ok result => exact ⟨hok, trivial, hid, trivial, h, trivial⟩
  | error e => exact ⟨herror, trivial, hid, trivial, ⟨hmembers, trivial, trivial, trivial⟩, trivial⟩

theorem delivered_wf {response : Response F} (h : response.WF) : (delivered response).WF := by
  unfold delivered
  split
  · exact h
  · trivial

/-- The client reads the response the server sent, whatever the chunks. -/
theorem receiveLine_wire {response : Response F} {data : Bytes} (hwf : response.WF)
    (hwire : wire response = .ok data) {chunks : List Bytes} (hchunks : Chunked chunks)
    (hdata : chunks.flatten = data) (rest : List Recv) :
    receiveLine jsonLoads (chunks.map .chunk ++ rest) = .ok (delivered response).toJson := by
  rw [wire_eq] at hwire
  obtain ⟨line, text, rfl, hlen, hlf, htext, hloads⟩ := encodeJsonLine_ok (delivered_wf hwf).toJson hwire
  have hreceived := receiveUntilLf_eq hlf
    (by simp only [List.length_append, List.length_cons, List.length_nil] at hlen; omega)
    chunks hchunks rest [] (by simp) hdata
  simp only [receiveLine, hreceived, ne_eq, not_true_eq_false, if_false, htext, jsonLoads, hloads]

/-- What the client makes of a response object. -/
theorem checkResponse_toJson (id : PyStr) (response : Response F) :
    checkResponse id response.toJson =
      if response.requestId = some id then
        match response.outcome with
        | .ok result => .ok result
        | .error e => .error (.remote e.code e.message)
      else .error (.client (py "Daemon response request_id does not match")) := by
  obtain ⟨requestId, outcome⟩ := response
  cases requestId with
  | none => cases outcome <;> rfl
  | some s =>
      by_cases hs : s = id
      · subst hs
        cases outcome with
        | ok result => simp [checkResponse, Response.toJson, lookup, isProtocolVersion,
            requestIdJson, isRequestId, isTrue, py, protocolVersion]
        | error e => simp [checkResponse, Response.toJson, lookup, isProtocolVersion,
            requestIdJson, isRequestId, isTrue, py, protocolVersion, pyStr]
      · have hbeq : (s == id) = false := by simpa using hs
        cases outcome with
        | ok result => simp [checkResponse, Response.toJson, lookup, isProtocolVersion,
            requestIdJson, isRequestId, py, protocolVersion, hs]
        | error e => simp [checkResponse, Response.toJson, lookup, isProtocolVersion,
            requestIdJson, isRequestId, py, protocolVersion, hs]

/-- A response is understood exactly if it carries the id of the request. -/
theorem understood_iff (id : PyStr) (response : Response F) :
    Understood response (checkResponse id (delivered response).toJson) ↔
      response.requestId = some id := by
  rw [checkResponse_toJson, delivered_requestId, Understood]
  by_cases hid : response.requestId = some id
  · simp only [hid, if_true, iff_true]
    cases (delivered response).outcome <;> rfl
  · simp only [hid, if_false, iff_false]
    cases (delivered response).outcome <;> simp

end Reading

/-! ## Every response can be encoded -/

theorem escapeChar_length (c : Nat) : (escapeChar c).length ≤ 6 := by
  unfold escapeChar
  split_ifs <;> simp

theorem quote_length_le (s : PyStr) : (quote s).length ≤ 6 * s.length + 2 := by
  have hflat : (s.flatMap escapeChar).length ≤ 6 * s.length := by
    induction s with
    | nil => simp
    | cons c s ih =>
        have hc := escapeChar_length c
        simp only [List.flatMap_cons, List.length_append, List.length_cons]
        omega
  simp only [quote, List.length_cons, List.length_append, List.length_nil]
  omega

theorem isRequestIdChar_ascii {c : Nat} (h : isRequestIdChar c = true) : c < 128 := by
  simp only [isRequestIdChar, isDigit, Bool.or_eq_true, Bool.and_eq_true, decide_eq_true_eq] at h
  rcases h with ((h | h) | h) | h
  · omega
  · omega
  · omega
  · revert h
    have hall : ∀ c ∈ py "._:-", c < 128 := by decide
    exact hall c

/-- The id of a response is absent or the id of a request. -/
def Response.Answers (response : Response F) : Prop :=
  ∀ id, response.requestId = some id →
    id.length ≤ maxRequestIdCharacters ∧ id.all isRequestIdChar = true

/-- The text of the fallback after the id, up to the closing brace. -/
def fallbackRest : PyStr :=
  py ",\"ok\":false,\"error\":" ++ (123 :: py "\"code\":\"RESPONSE_TOO_LARGE\",\"message\":" ++
    py "\"The daemon result exceeds the IPC response limit\"" ++ [125])

/-- The text before the id. -/
def fallbackStart : PyStr := 123 :: py "\"version\":1,\"request_id\":"

theorem fallback_print [PyFloat F] (id : Option PyStr) :
    (errorResponse (F := F) id (py "RESPONSE_TOO_LARGE")
      (py "The daemon result exceeds the IPC response limit")).toJson.print .compact 0 =
    fallbackStart ++ (((requestIdJson id : Json F).print .compact 1 ++ fallbackRest) ++ [125]) := by
  cases id with
  | none => rfl
  | some s => rfl

theorem fallback_encodes [PyFloat F] {id : Option PyStr}
    (hid : ∀ s, id = some s → s.length ≤ maxRequestIdCharacters ∧ s.all isRequestIdChar = true) :
    ∃ data, encodeJsonLine (errorResponse (F := F) id (py "RESPONSE_TOO_LARGE")
      (py "The daemon result exceeds the IPC response limit")).toJson maxResponseBytes = .ok data := by
  have hstart : fallbackStart.length ≤ 100 := by decide
  have hrest : fallbackRest.length ≤ 200 := by decide
  have hstrings : ∀ s ∈ (errorResponse (F := F) id (py "RESPONSE_TOO_LARGE")
      (py "The daemon result exceeds the IPC response limit")).toJson.strings, ∀ c ∈ s, c < 128 := by
    have hversion : ∀ c ∈ py "version", c < 128 := by decide
    have hrequestId : ∀ c ∈ py "request_id", c < 128 := by decide
    have hok : ∀ c ∈ py "ok", c < 128 := by decide
    have herror : ∀ c ∈ py "error", c < 128 := by decide
    have hcode : ∀ c ∈ py "code", c < 128 := by decide
    have hlarge : ∀ c ∈ py "RESPONSE_TOO_LARGE", c < 128 := by decide
    have hmessage : ∀ c ∈ py "message", c < 128 := by decide
    have htext : ∀ c ∈ py "The daemon result exceeds the IPC response limit", c < 128 := by decide
    have hlast : ∀ s ∈ ([] : List PyStr), ∀ c ∈ s, c < 128 := by simp
    cases id with
    | none =>
        exact List.forall_mem_cons.2 ⟨hversion, List.forall_mem_cons.2 ⟨hrequestId,
          List.forall_mem_cons.2 ⟨hok, List.forall_mem_cons.2 ⟨herror, List.forall_mem_cons.2 ⟨hcode,
          List.forall_mem_cons.2 ⟨hlarge, List.forall_mem_cons.2 ⟨hmessage,
          List.forall_mem_cons.2 ⟨htext, hlast⟩⟩⟩⟩⟩⟩⟩⟩
    | some id =>
        have hchars : ∀ c ∈ id, c < 128 := fun c hc =>
          isRequestIdChar_ascii (List.all_eq_true.1 (hid id rfl).2 c hc)
        exact List.forall_mem_cons.2 ⟨hversion, List.forall_mem_cons.2 ⟨hrequestId,
          List.forall_mem_cons.2 ⟨hchars, List.forall_mem_cons.2 ⟨hok,
          List.forall_mem_cons.2 ⟨herror, List.forall_mem_cons.2 ⟨hcode,
          List.forall_mem_cons.2 ⟨hlarge, List.forall_mem_cons.2 ⟨hmessage,
          List.forall_mem_cons.2 ⟨htext, hlast⟩⟩⟩⟩⟩⟩⟩⟩⟩
  refine encodeJsonLine_ascii ?_ ?_ ?_
  · cases id <;> rfl
  · exact hstrings
  · have hprint : ((requestIdJson id : Json F).print .compact 1).length ≤ 1000 := by
      cases id with
      | none =>
          show (py "null").length ≤ 1000
          decide
      | some s =>
          have hs := (hid s rfl).1
          have hquote := quote_length_le s
          simp only [maxRequestIdCharacters] at hs
          simp only [requestIdJson, Json.print]
          omega
    rw [fallback_print]
    simp only [List.length_append, List.length_cons, List.length_nil, maxResponseBytes]
    omega

/-- Every response that answers a request, or none, can be sent. -/
theorem wire_ok [PyFloat F] {response : Response F} (h : response.Answers) :
    ∃ data, wire response = .ok data := by
  unfold wire
  cases hencode : encodeJsonLine response.toJson maxResponseBytes with
  | ok data => exact ⟨data, rfl⟩
  | error e => exact fallback_encodes h

/-! ## The first response on a connection -/

def firstSent (events : List (Event F)) : Option (Response F) :=
  events.findSome? fun
    | .processed _ => none
    | .sent response => some response

theorem firstSent_append (a b : List (Event F)) :
    firstSent (a ++ b) = (firstSent a).or (firstSent b) := by
  simp [firstSent, List.findSome?_append]

theorem firstSent_mono {a b : List (Event F)} (h : a <+: b) {response : Response F}
    (ha : firstSent a = some response) : firstSent b = some response := by
  obtain ⟨c, rfl⟩ := h
  rw [firstSent_append, ha]
  rfl

section First

variable (c : Connection σ F)

theorem drain_events (fuel : Nat) (buffer : Bytes) (s : Session σ F) :
    s.events <+: (drain c fuel buffer s).2.events := by
  induction fuel generalizing buffer s with
  | zero => exact List.prefix_rfl
  | succ fuel ih =>
      simp only [drain]
      split
      · exact List.prefix_rfl
      · next line remainder _ =>
        have hprocess : s.events <+: (s.process c line).2.events := ⟨_, rfl⟩
        split
        · next hp => rw [hp] at hprocess; exact hprocess
        · next response s₁ hp =>
          rw [hp] at hprocess
          have hsend : s₁.events <+: (s₁.send c response).2.events := ⟨_, rfl⟩
          split
          · next hs => rw [hs] at hsend; exact hprocess.trans hsend
          · next s₂ hs =>
            rw [hs] at hsend
            split
            · exact (hprocess.trans hsend).trans ⟨_, rfl⟩
            · exact (hprocess.trans hsend).trans (ih _ _)

theorem serve_events (answers : List Recv) (buffer : Bytes) (s : Session σ F) :
    s.events <+: (serve c answers buffer s).events := by
  induction answers generalizing buffer s with
  | nil => exact List.prefix_rfl
  | cons answer answers ih =>
      cases answer with
      | stopped => exact List.prefix_rfl
      | reset => exact List.prefix_rfl
      | timeout => exact ⟨_, rfl⟩
      | chunk data =>
          simp only [serve]
          split_ifs
          · exact List.prefix_rfl
          · exact ⟨_, rfl⟩
          · exact ⟨_, rfl⟩
          · have hdrain := drain_events c (buffer ++ data).length (buffer ++ data) s
            split
            · next hd => rw [hd] at hdrain; exact hdrain
            · next hd => rw [hd] at hdrain; exact hdrain.trans (ih _ _)

end First

/-- The data of the chunks. -/
def received : List Recv → Bytes
  | [] => []
  | .chunk data :: answers => data ++ received answers
  | _ :: answers => received answers

/-- The bytes arrive before anything else happens on the connection. -/
def Arrives (buffer : Bytes) (answers : List Recv) (bytes : Bytes) : Prop :=
  ∃ (chunks : List Bytes) (rest : List Recv), answers = chunks.map Recv.chunk ++ rest ∧ (∀ chunk ∈ chunks, chunk ≠ []) ∧
    buffer ++ chunks.flatten = bytes

theorem arrives_cons {buffer data : Bytes} {answers : List Recv} {line : Bytes} (hbuffer : lf ∉ buffer)
    (hdata : data ≠ []) :
    Arrives buffer (.chunk data :: answers) (line ++ [lf]) ↔
      Arrives (buffer ++ data) answers (line ++ [lf]) := by
  constructor
  · rintro ⟨chunks, rest, heq, hne, hflat⟩
    cases chunks with
    | nil =>
        rw [List.flatten_nil, List.append_nil] at hflat
        exact absurd (hflat ▸ List.mem_append_right line (List.mem_singleton.2 rfl)) hbuffer
    | cons chunk chunks =>
        simp only [List.map_cons, List.cons_append, List.cons.injEq, Recv.chunk.injEq] at heq
        obtain ⟨rfl, rfl⟩ := heq
        refine ⟨chunks, rest, rfl, fun c hc => hne c (List.mem_cons_of_mem _ hc), ?_⟩
        rw [List.append_assoc]
        exact hflat
  · rintro ⟨chunks, rest, rfl, hne, hflat⟩
    refine ⟨data :: chunks, rest, rfl, ?_, ?_⟩
    · intro c hc
      rcases List.mem_cons.1 hc with rfl | hc
      · exact hdata
      · exact hne c hc
    · rw [List.flatten_cons, ← List.append_assoc]
      exact hflat

theorem drain_rest {c : Connection σ F} {buffer : Bytes} (h : lf ∉ buffer) {fuel : Nat}
    {s : Session σ F} : drain c fuel buffer s = (some buffer, s) := by
  cases fuel with
  | zero => rfl
  | succ fuel => simp only [drain, splitLf_eq_none.2 h]

/-- Where the buffer is one line, the first response is that of the line. -/
theorem serve_line {c : Connection σ F} {line : Bytes} (hline : lf ∉ line) (answers : List Recv)
    (s : Session σ F) (hs : firstSent s.events = none) {response : Response F}
    (h : firstSent (match drain c (line ++ [lf]).length (line ++ [lf]) s with
      | (none, s) => s
      | (some buffer, s) => serve c answers buffer s).events = some response) :
    ∃ s₁ s₂, c.process line s₁ = (.ok response, s₂) := by
  have hlen : (line ++ [lf]).length = line.length + 1 := by simp
  rw [hlen] at h
  have hprocessed : firstSent (s.events ++ [.processed line]) = none := by
    rw [firstSent_append, hs]
    rfl
  cases hp : c.process line s.state with
  | mk answer state =>
      cases answer with
      | error e =>
          simp only [drain, splitLf_line hline, Session.process, hp] at h
          rw [hprocessed] at h
          exact absurd h (by simp)
      | ok r =>
          -- whatever happens after the first response does not change it
          have hfirst : firstSent ((s.events ++ [.processed line]) ++ [.sent r]) = some r := by
            rw [firstSent_append, hprocessed]
            rfl
          have hevents : (s.events ++ [.processed line]) ++ [.sent r] <+:
              (match drain c (line.length + 1) (line ++ [lf]) s with
                | (none, s) => s
                | (some buffer, s) => serve c answers buffer s).events := by
            have hsent : (s.events ++ [.processed line]) ++ [.sent r] <+:
                (Session.send c r ⟨state, s.events ++ [.processed line]⟩).2.events := List.prefix_rfl
            simp only [drain, splitLf_line hline, Session.process, hp]
            cases hsend : Session.send c r ⟨state, s.events ++ [.processed line]⟩ with
            | mk ok s₂ =>
                rw [hsend] at hsent
                cases ok with
                | false => exact hsent
                | true =>
                    simp only [List.length_nil, Nat.not_lt_zero, gt_iff_lt, if_false,
                      drain_rest (List.not_mem_nil)]
                    exact hsent.trans (serve_events c answers [] s₂)
          rw [firstSent_mono hevents hfirst, Option.some.injEq] at h
          exact ⟨s.state, state, by rw [hp, h]⟩

/-- A connection on which nothing more than one line arrives: its first response is that of the line,
    where the line arrives, and one without an id otherwise. -/
theorem serve_first {c : Connection σ F} {line : Bytes} (hline : lf ∉ line)
    (hlen : line.length ≤ maxRequestBytes) (answers : List Recv) (buffer : Bytes)
    (hbuffer : lf ∉ buffer) (hstart : buffer ++ received answers <+: line ++ [lf])
    (s : Session σ F) (hs : firstSent s.events = none) {response : Response F}
    (h : firstSent (serve c answers buffer s).events = some response) :
    (Arrives buffer answers (line ++ [lf]) ∧ ∃ s₁ s₂, c.process line s₁ = (.ok response, s₂)) ∨
    (¬ Arrives buffer answers (line ++ [lf]) ∧ ∃ code message,
      response = errorResponse none code message) := by
  induction answers generalizing buffer s with
  | nil => exact absurd h (by rw [serve, hs]; simp)
  | cons answer answers ih =>
      -- where the next answer brings no data, the line does not arrive
      have hother : (∀ data, data ≠ [] → answer ≠ .chunk data) →
          ¬ Arrives buffer (answer :: answers) (line ++ [lf]) := by
        rintro hanswer ⟨chunks, rest, heq, hne, hflat⟩
        cases chunks with
        | nil =>
            rw [List.flatten_nil, List.append_nil] at hflat
            exact hbuffer (hflat ▸ List.mem_append_right line (List.mem_singleton.2 rfl))
        | cons chunk chunks =>
            exact hanswer chunk (hne chunk (List.mem_cons_self ..)) (List.cons.inj heq).1
      have hsend : ∀ r : Response F, firstSent (s.send c r).2.events = some r := by
        intro r
        show firstSent (s.events ++ [.sent r]) = some r
        rw [firstSent_append, hs]
        rfl
      cases answer with
      | stopped => exact absurd h (by rw [serve, hs]; simp)
      | reset => exact absurd h (by rw [serve, hs]; simp)
      | timeout =>
          rw [serve, hsend, Option.some.injEq] at h
          exact .inr ⟨hother (by simp), _, _, h.symm⟩
      | chunk data =>
          rw [serve] at h
          by_cases hdata : data = []
          · rw [if_pos hdata] at h
            by_cases hempty : buffer = []
            · rw [if_pos hempty, hs] at h
              exact absurd h (by simp)
            · rw [if_neg hempty, hsend, Option.some.injEq] at h
              refine .inr ⟨hother ?_, _, _, h.symm⟩
              rintro data' hne heq
              exact hne ((Recv.chunk.inj heq).symm.trans hdata)
          · have hchunk : buffer ++ data <+: line ++ [lf] := by
              rw [received, ← List.append_assoc] at hstart
              exact (List.prefix_append _ _).trans hstart
            by_cases hlf : lf ∈ buffer ++ data
            · -- the whole line is there
              have hwhole : buffer ++ data = line ++ [lf] := by
                rcases List.prefix_concat_iff.1 hchunk with heq | hshort
                · exact heq
                · exact absurd (hshort.subset hlf) hline
              have hopen : ¬ ((buffer ++ data).length > maxRequestBytes ∧ lf ∉ buffer ++ data) :=
                fun hclose => hclose.2 hlf
              rw [if_neg hdata, if_neg hopen, hwhole] at h
              obtain ⟨r, hr⟩ := serve_line (c := c) hline answers s hs h
              refine .inl ⟨⟨[data], answers, rfl, by simpa using hdata, ?_⟩, r, hr⟩
              rw [List.flatten_cons, List.flatten_nil, List.append_nil]
              exact hwhole
            · have hshort : buffer ++ data <+: line := by
                rcases List.prefix_concat_iff.1 hchunk with heq | hshort
                · exact absurd (heq ▸ List.mem_append_right line (List.mem_singleton.2 rfl)) hlf
                · exact hshort
              have hopen : ¬ ((buffer ++ data).length > maxRequestBytes ∧ lf ∉ buffer ++ data) := by
                have := hshort.length_le
                omega
              rw [if_neg hdata, if_neg hopen, drain_rest hlf] at h
              rw [received, ← List.append_assoc] at hstart
              rw [arrives_cons hbuffer hdata]
              exact ih _ hlf hstart s hs h

/-! ## Client and server -/

section Together

variable [FloatNum F]

/-- The handler's results are Python values. -/
def Handler.WF (handler : Handler σ F) : Prop :=
  ∀ a params r s result s', handler a params r s = (.ok result, s') → result.WF

omit [FloatNum F] in
theorem processRequest_response {db : Accounts} {handler : Handler σ F} (hwf : Handler.WF handler)
    {request : RequestMessage F} {r : Requester} {s : σ} {response : Response F}
    (h : (processRequest db handler request r s).1 = .ok response) :
    response.requestId = some request.requestId ∧ response.WF := by
  unfold processRequest at h
  split at h
  · cases h
  · obtain rfl := Except.ok.inj h
    exact ⟨rfl, trivial⟩
  · split at h
    · next e _ _ =>
      obtain rfl := Except.ok.inj h
      cases e <;> exact ⟨rfl, trivial⟩
    · next result s' hhandled =>
      obtain rfl := Except.ok.inj h
      exact ⟨rfl, hwf _ _ _ _ _ _ hhandled⟩

theorem clientLine_ok {requestId action : PyStr} {params : Option (Mapping F)}
    {request : RequestMessage F} {bytes : Bytes}
    (h : clientLine requestId action params = .ok (request, bytes)) :
    buildRequest requestId action params = .ok request ∧
      encodeJsonLine request.toJson (64 * 1024) = .ok bytes := by
  obtain ⟨built, hbuilt, h⟩ := protocol_bind_ok h
  obtain ⟨encoded, hencoded, h⟩ := protocol_bind_ok h
  simp only [pure, Except.pure, Except.ok.injEq, Prod.mk.injEq] at h
  obtain ⟨rfl, rfl⟩ := h
  exact ⟨hbuilt, hencoded⟩

/-- The id of a request that was built can stand in a response. -/
theorem requestId_of_build {requestId action : PyStr} {params : Option (Mapping F)}
    {request : RequestMessage F} (h : buildRequest requestId action params = .ok request) :
    request.requestId.length ≤ maxRequestIdCharacters ∧
      request.requestId.all isRequestIdChar = true := by
  obtain ⟨_, _, _, -, -, -, hid, -⟩ := validateRequestObject_ok_iff.1 h
  exact (validateRequestId_ok hid).2.2

/-- The server has read the request when it answers: the connection got a slot, its peer is known,
    and the request has arrived in full. -/
def RequestRead (admission : Admission) (answers : List Recv) (bytes : Bytes) : Prop :=
  (∃ r, admission = .served r) ∧ Arrives [] answers bytes

/-- What the first response on the client's connection is. -/
theorem first_response {db : Accounts} {handler : Handler σ F} (hhandler : Handler.WF handler)
    {send : Response F → σ → Bool × σ} {requestId action : PyStr} {params : Option (Mapping F)}
    (hparams : (Json.obj (params.getD [])).WF) {request : RequestMessage F} {bytes : Bytes}
    (hline : clientLine requestId action params = .ok (request, bytes)) {admission : Admission}
    {answers : List Recv} (hreceived : received answers <+: bytes) {state : σ}
    {response : Response F}
    (hfirst : firstSent (handleConnection (processLine jsonLoads db handler) send admission answers
      state).events = some response) :
    (RequestRead admission answers bytes ∧ response.requestId = some request.requestId ∧
      response.WF) ∨
    (¬ RequestRead admission answers bytes ∧ response.requestId = none ∧ response.WF) := by
  obtain ⟨hbuild, hbytes⟩ := clientLine_ok hline
  obtain ⟨line, rfl, hlen, hlf, hdecode⟩ := decodeRequestLine_of_build hparams hbuild hbytes le_rfl
  have hunread : ∀ r : Response F, firstSent [.sent r] = some r := fun _ => rfl
  cases admission with
  | busy =>
      rw [handleConnection, hunread, Option.some.injEq] at hfirst
      rw [← hfirst]
      exact .inr ⟨fun h => absurd h.1 (by simp), rfl, trivial⟩
  | unknownPeer =>
      rw [handleConnection, hunread, Option.some.injEq] at hfirst
      rw [← hfirst]
      exact .inr ⟨fun h => absurd h.1 (by simp), rfl, trivial⟩
  | served r =>
      have hshort : line.length ≤ maxRequestBytes := by
        simp only [List.length_append, List.length_cons, List.length_nil] at hlen
        simp only [maxRequestBytes]
        omega
      rcases serve_first hlf hshort answers [] (by simp) hreceived ⟨state, []⟩ rfl hfirst with
        ⟨harrives, s₁, s₂, hprocess⟩ | ⟨hno, code, message, rfl⟩
      · have hrequest : processRequest db handler request r s₁ = (.ok response, s₂) := by
          simpa only [processLine, hdecode] using hprocess
        exact .inl ⟨⟨⟨r, rfl⟩, harrives⟩, processRequest_response hhandler (congrArg Prod.fst hrequest)⟩
      · exact .inr ⟨fun h => hno h.2, rfl, trivial⟩

end Together

/-! ### A status request -/

/-- A server without accounts, whose handler always answers `null`. -/
def noAccounts : Accounts := ⟨fun _ => none, fun _ => none, fun _ _ => .error .keyError⟩

def nullHandler : Handler Unit SampleFloat := fun _ _ _ s => (.ok .null, s)

theorem nullHandler_wf : Handler.WF nullHandler := by
  intro a params r s result s' h
  simp only [nullHandler, Prod.mk.injEq, Except.ok.injEq] at h
  rw [← h.1]
  trivial

def sendAlways : Response SampleFloat → Unit → Bool × Unit := fun _ s => (true, s)

def statusRequest : RequestMessage SampleFloat := ⟨1, py "r", .getStatus, []⟩

theorem statusRequest_built :
    buildRequest (F := SampleFloat) (py "r") (py "get_status") none = .ok statusRequest := by
  refine validateRequestObject_ok_iff.2
    ⟨_, py "get_status", [], rfl, ?_, ?_, rfl, rfl, rfl, by decide, rfl, ?_, rfl⟩
  · exact fun k hk => hk
  · exact fun k hk => hk
  · exact validateActionParams_ok_iff.2 ⟨by decide, by simp [IpcAction.required, statusRequest],
      by simp [keys], rfl⟩

theorem statusRequest_line :
    ∃ bytes, clientLine (py "r") (py "get_status") none = .ok (statusRequest, bytes) := by
  obtain ⟨bytes, hbytes⟩ := encodeJsonLine_ascii (v := statusRequest.toJson) (n := 64 * 1024)
    (by decide) (by decide) (by decide)
  refine ⟨bytes, ?_⟩
  simp only [clientLine, statusRequest_built, hbytes, bind, Except.bind, pure, Except.pure]

/-- A closed response whose bytes fit one chunk. -/
theorem wire_chunked {response : Response SampleFloat} {data : Bytes} (h : wire response = .ok data)
    (hlen : 1 ≤ ((wire response).toOption.getD []).length ∧
      ((wire response).toOption.getD []).length ≤ 4096) : Chunked [data] := by
  rw [h] at hlen
  intro chunk hchunk
  rw [List.mem_singleton.1 hchunk]
  refine ⟨fun hnil => ?_, hlen.2⟩
  have := hlen.1
  rw [hnil] at this
  exact absurd this (by decide)

/-- The request arrives in one chunk and is answered. -/
theorem status_first {line : Bytes} (hlf : lf ∉ line)
    (hdecode : decodeRequestLine jsonLoads line = .ok statusRequest) (r : Requester) :
    firstSent (handleConnection (processLine jsonLoads noAccounts nullHandler) sendAlways (.served r)
      [.chunk (line ++ [lf])] ()).events = some (successResponse (py "r") .null) := by
  have hne : line ++ [lf] ≠ [] := by simp
  have hlen : (line ++ [lf]).length = line.length + 1 := by simp
  have hopen : ¬ (maxRequestBytes < line.length + 1 ∧ lf ∉ line ++ [lf]) :=
    fun h => h.2 (List.mem_append_right _ (List.mem_singleton.2 rfl))
  have hprocess : processLine jsonLoads noAccounts nullHandler r line () =
      (.ok (successResponse (py "r") .null), ()) := by
    simp only [processLine, hdecode]
    rfl
  simp only [handleConnection, serve, List.nil_append, if_neg hne, gt_iff_lt, hlen, if_neg hopen,
    drain, splitLf_line hlf, Session.process, hprocess, Session.send, sendAlways, List.length_nil,
    Nat.not_lt_zero, if_false, drain_rest List.not_mem_nil]
  rfl

example : (wire (serverBusy : Response SampleFloat)).isOk = true := by decide +kernel

end Elyra.Service
