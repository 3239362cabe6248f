import Elyra.Service.Protocol

set_option autoImplicit false

/-! # Requests survive their encoding

What the checks of `ipc_protocol.py` accept, clause by clause (`validateActionParams_ok_iff`,
`validateRequestObject_ok_iff`), that checking a checked request changes nothing, and that the line a
client sends is decoded to the request it built (`decodeRequestLine_of_build`). -/

namespace Elyra.Service

open Elyra.Python

variable {F : Type}

theorem protocol_bind_ok {α β : Type} {x : Except ProtocolError α}
    {g : α → Except ProtocolError β} {b : β} (h : (x >>= g) = .ok b) : ∃ a, x = .ok a ∧ g a = .ok b := by
  cases x with
  | error e => exact absurd h (by simp [bind, Except.bind])
  | ok a => exact ⟨a, rfl, h⟩

theorem without_eq_nil {left right : List PyStr} :
    without left right = [] ↔ ∀ k ∈ left, k ∈ right := by
  simp [without, List.filter_eq_nil_iff]

/-! ## Parameters -/

theorem requireString_some {params : Mapping F} {name s : PyStr} {allowNone : Bool} {n : Nat}
    (h : requireString params name allowNone n = .ok (some s)) :
    lookup name params = some (.str s) := by
  unfold requireString at h
  split at h
  · exact absurd h (by simp)
  · exact absurd h (by simp)
  · next t hlookup =>
    rw [hlookup]
    split_ifs at h
    simpa using h
  · exact absurd h (by simp)

/-- What `_require_string` answers depends on the value of that parameter alone. -/
theorem requireString_congr {params params' : Mapping F} {name : PyStr} (allowNone : Bool) (n : Nat)
    (h : lookup name params' = lookup name params) :
    requireString params' name allowNone n = requireString params name allowNone n := by
  unfold requireString
  rw [h]

theorem validateIpcQuarantineId_ok {o : Option PyStr} {id : PyStr}
    (h : validateIpcQuarantineId o = .ok id) : o = some id ∧ Quarantine.isUuid id = true := by
  unfold validateIpcQuarantineId at h
  split at h
  · exact absurd h (by simp)
  · split_ifs at h with huuid
    obtain rfl : _ = id := by simpa using h
    exact ⟨rfl, huuid⟩

/-- A required parameter is handed on as it is. -/
theorem validateQuarantineIdParam_ok {params params' : Mapping F}
    (h : validateQuarantineIdParam params = .ok params') :
    params' = params ∧ ∃ id, Quarantine.isUuid id = true ∧
      lookup (py "quarantine_id") params = some (.str id) := by
  obtain ⟨o, ho, hrest⟩ := protocol_bind_ok h
  obtain ⟨id, hid, hlast⟩ := protocol_bind_ok hrest
  obtain ⟨rfl, huuid⟩ := validateIpcQuarantineId_ok hid
  have hlookup := requireString_some ho
  have heq : assign (py "quarantine_id") (.str id) params = params' := by
    simpa [pure, Except.pure] using hlast
  rw [assign_self hlookup] at heq
  exact ⟨heq.symm, id, huuid, hlookup⟩

theorem validateScanPath_ok {params params' : Mapping F} (h : validateScanPath params = .ok params') :
    params' = params := by
  obtain ⟨o, ho, h⟩ := protocol_bind_ok h
  cases o with
  | none => exact absurd h (by simp [throw, throwThe, MonadExceptOf.throw])
  | some path =>
      simp only at h
      split_ifs at h
      · have heq : assign (py "path") (.str path) params = params' := by
          simpa [pure, Except.pure] using h
        rw [← heq, assign_self (requireString_some ho)]

theorem validateMode_ok {params params' : Mapping F} (h : validateMode params = .ok params') :
    params' = params ∧ ∃ mode ∈ [py "MONITOR_ONLY", py "ENFORCEMENT"],
      lookup (py "mode") params = some (.str mode) := by
  obtain ⟨o, ho, h⟩ := protocol_bind_ok h
  cases o with
  | none => exact absurd h (by simp [throw, throwThe, MonadExceptOf.throw])
  | some mode =>
      simp only at h
      split_ifs at h with hmode
      · have heq : assign (py "mode") (.str mode) params = params' := by
          simpa [pure, Except.pure] using h
        have hlookup := requireString_some ho
        exact ⟨by rw [← heq, assign_self hlookup], mode, hmode, hlookup⟩

theorem validateLimit_ok {params params' : Mapping F} (h : validateLimit params = .ok params') :
    ∃ n : Int, 1 ≤ n ∧ n ≤ 200 ∧ params' = assign (py "limit") (.int n) params := by
  unfold validateLimit at h
  split at h
  · next n _ =>
    split_ifs at h with hn
    exact ⟨n, hn.1, hn.2, by simpa using h.symm⟩
  · exact absurd h (by simp)

theorem validateLimit_again {params params' : Mapping F} (h : validateLimit params = .ok params') :
    validateLimit params' = .ok params' := by
  obtain ⟨n, hlo, hhi, rfl⟩ := validateLimit_ok h
  have hlookup : lookup (py "limit") (assign (py "limit") (.int n : Json F) params) = some (.int n) := by
    simp [lookup_assign]
  simp only [validateLimit, hlookup, Option.getD_some, if_pos (And.intro hlo hhi), assign_self]

theorem validateDestination_ok {params params' : Mapping F}
    (h : validateDestination params = .ok params') :
    ∃ v : Json F, params' = assign (py "destination") v params ∧
      (v = .null ∨ ∃ s, v = .str s ∧ startsWithSlash s = true) := by
  obtain ⟨o, ho, h⟩ := protocol_bind_ok h
  cases o with
  | none => exact ⟨.null, by simpa [pure, Except.pure] using h.symm, .inl rfl⟩
  | some destination =>
      simp only at h
      split_ifs at h with hslash
      · exact ⟨.str destination, by simpa [pure, Except.pure] using h.symm, .inr ⟨_, rfl, hslash⟩⟩

theorem validateDestination_again {params params' : Mapping F}
    (h : validateDestination params = .ok params') : validateDestination params' = .ok params' := by
  obtain ⟨o, ho, h⟩ := protocol_bind_ok h
  cases o with
  | none =>
      obtain rfl : assign (py "destination") .null params = params' := by
        simpa [pure, Except.pure] using h
      have hlookup : lookup (py "destination") (assign (py "destination") (.null : Json F) params) =
          some .null := by
        simp [lookup_assign]
      simp only [validateDestination, requireString, hlookup, assign_self, bind, Except.bind, pure,
        Except.pure]
  | some destination =>
      simp only at h
      split_ifs at h with hslash
      · obtain rfl : assign (py "destination") (.str destination) params = params' := by
          simpa [pure, Except.pure] using h
        rw [assign_self (requireString_some ho)]
        simp only [validateDestination, ho, bind, Except.bind, if_pos hslash, pure, Except.pure,
          assign_self (requireString_some ho)]

/-- Normalising keeps the parameters but for the default of an optional one, and normalising again
    changes nothing. -/
theorem normalizeParams_ok {a : IpcAction} {params params' : Mapping F}
    (h : normalizeParams a params = .ok params') :
    normalizeParams a params' = .ok params' ∧
      (params' = params ∨
        ∃ k ∈ a.optional, ∃ v : Json F, v.WF ∧ params' = assign k v params) := by
  cases a with
  | getStatus | listQuarantine | getPolicy =>
      simp only [normalizeParams, Except.ok.injEq] at h
      exact ⟨rfl, .inl h.symm⟩
  | listEvents | listRuntimeStates =>
      obtain ⟨n, -, -, heq⟩ := validateLimit_ok h
      exact ⟨validateLimit_again h,
        .inr ⟨py "limit", by simp [IpcAction.optional], .int n, trivial, heq⟩⟩
  | scanFile =>
      obtain rfl := validateScanPath_ok h
      exact ⟨h, .inl rfl⟩
  | deletePermanently =>
      obtain ⟨rfl, -⟩ := validateQuarantineIdParam_ok h
      exact ⟨h, .inl rfl⟩
  | updateEnforcementPolicy =>
      obtain ⟨rfl, -⟩ := validateMode_ok h
      exact ⟨h, .inl rfl⟩
  | restoreFile =>
      obtain ⟨params₁, hid, hdest⟩ := protocol_bind_ok h
      obtain ⟨rfl, id, huuid, hlookup⟩ := validateQuarantineIdParam_ok hid
      obtain ⟨v, heq, hv⟩ := validateDestination_ok hdest
      have hwf : v.WF := by
        rcases hv with rfl | ⟨s, rfl, -⟩ <;> trivial
      refine ⟨?_, .inr ⟨py "destination", by simp [IpcAction.optional], v, hwf, heq⟩⟩
      -- the destination is another parameter than the id
      have hsame : lookup (py "quarantine_id") params' = lookup (py "quarantine_id") params₁ := by
        rw [heq, lookup_assign, if_neg (by decide)]
      obtain ⟨o, ho, hrest⟩ := protocol_bind_ok hid
      obtain ⟨id', hid', -⟩ := protocol_bind_ok hrest
      obtain ⟨rfl, -⟩ := validateIpcQuarantineId_ok hid'
      have hagain : validateQuarantineIdParam params' = .ok params' := by
        have hstr := requireString_some ho
        rw [← hsame] at hstr
        simp only [validateQuarantineIdParam, requireString_congr false 64 hsame, ho, hid', bind,
          Except.bind, pure, Except.pure, assign_self hstr]
      simp only [normalizeParams, hagain, bind, Except.bind]
      exact validateDestination_again hdest

theorem ensure_ok_iff {ok : Prop} [Decidable ok] {e : ProtocolError} {u : Unit} :
    ensure ok e = .ok u ↔ ok := by
  unfold ensure
  split <;> simp_all

theorem unknown_eq_nil {names required optional : List PyStr} :
    without (without names required) optional = [] ↔
      ∀ k ∈ names, k ∈ required ∨ k ∈ optional := by
  rw [without_eq_nil]
  constructor
  · intro h k hk
    by_cases hreq : k ∈ required
    · exact .inl hreq
    · exact .inr (h k (by simp [without, hk, hreq]))
  · intro h k hk
    simp only [without, List.mem_filter, decide_eq_true_eq] at hk
    exact (h k hk.1).resolve_left hk.2

theorem requireAction_ok_iff {action : PyStr} {a : IpcAction} :
    requireAction action = .ok a ↔ IpcAction.ofName action = some a := by
  unfold requireAction
  split <;> simp_all

theorem validateActionParams_ok_iff {action : PyStr} {a : IpcAction} {params params' : Mapping F} :
    validateActionParams action params = .ok (a, params') ↔
      IpcAction.ofName action = some a ∧ (∀ k ∈ a.required, k ∈ keys params) ∧
      (∀ k ∈ keys params, k ∈ a.required ∨ k ∈ a.optional) ∧ normalizeParams a params = .ok params' := by
  constructor
  · intro h
    obtain ⟨b, hb, h⟩ := protocol_bind_ok h
    obtain ⟨_, hmissing, h⟩ := protocol_bind_ok h
    obtain ⟨_, hunknown, h⟩ := protocol_bind_ok h
    obtain ⟨normal, hnormal, h⟩ := protocol_bind_ok h
    simp only [pure, Except.pure, Except.ok.injEq, Prod.mk.injEq] at h
    obtain ⟨rfl, rfl⟩ := h
    exact ⟨requireAction_ok_iff.1 hb, without_eq_nil.1 (ensure_ok_iff.1 hmissing),
      unknown_eq_nil.1 (ensure_ok_iff.1 hunknown), hnormal⟩
  · rintro ⟨hname, hmissing, hunknown, hnormal⟩
    simp only [validateActionParams, requireAction_ok_iff.2 hname, without_eq_nil.2 hmissing,
      unknown_eq_nil.2 hunknown, hnormal, ensure, if_true, bind, Except.bind, pure, Except.pure]

/-- The checked parameters of an action pass its checks unchanged. -/
theorem validateActionParams_again {action : PyStr} {a : IpcAction} {params params' : Mapping F}
    (h : validateActionParams action params = .ok (a, params')) :
    validateActionParams a.name params' = .ok (a, params') := by
  obtain ⟨-, hreq, hall, hnorm⟩ := validateActionParams_ok_iff.1 h
  obtain ⟨hagain, hparams⟩ := normalizeParams_ok hnorm
  refine validateActionParams_ok_iff.2 ⟨a.ofName_name, ?_, ?_, hagain⟩
  · intro k hk
    rcases hparams with rfl | ⟨k', -, v, -, rfl⟩
    · exact hreq k hk
    · rw [keys_assign]
      split
      · exact hreq k hk
      · exact List.mem_append_left _ (hreq k hk)
  · intro k hk
    rcases hparams with rfl | ⟨k', hk', v, -, rfl⟩
    · exact hall k hk
    · rw [keys_assign] at hk
      split at hk
      · exact hall k hk
      · rcases List.mem_append.1 hk with hk | hk
        · exact hall k hk
        · rw [List.mem_singleton.1 hk]
          exact .inr hk'

/-! ## Requests -/

section Requests

variable [PyFloat F]

omit [PyFloat F] in
theorem validateRequestId_ok {v : Json F} {id : PyStr} (h : validateRequestId v = .ok id) :
    v = .str id ∧ id ≠ [] ∧ id.length ≤ maxRequestIdCharacters ∧ id.all isRequestIdChar = true := by
  unfold validateRequestId at h
  split at h
  · split_ifs at h with hne hbad
    obtain rfl : _ = id := by simpa using h
    rw [not_or, Nat.not_lt, Bool.not_eq_false] at hbad
    exact ⟨rfl, hne, hbad.1, hbad.2⟩
  · exact absurd h (by simp)

omit [PyFloat F] in
theorem requirePlainObject_ok_iff {v : Json F} {name : PyStr} {members : Mapping F} :
    requirePlainObject v name = .ok members ↔ v = .obj members := by
  unfold requirePlainObject
  split <;> simp_all

omit [PyFloat F] in
theorem requireActionName_ok_iff {v : Json F} {id action : PyStr} :
    requireActionName v id = .ok action ↔ v = .str action ∧ action ≠ [] := by
  unfold requireActionName
  split
  · next c rest =>
    simp only [Except.ok.injEq, Json.str.injEq]
    constructor
    · rintro rfl
      exact ⟨rfl, by simp⟩
    · exact fun h => h.1
  · next hv =>
    refine iff_of_false (by simp) ?_
    rintro ⟨rfl, hne⟩
    obtain ⟨c, rest, rfl⟩ := List.exists_cons_of_ne_nil hne
    exact hv c rest rfl

theorem withRequestId_ok_iff {α : Type} {id : PyStr} {x : Except ProtocolError α} {a : α} :
    withRequestId id x = .ok a ↔ x = .ok a := by
  unfold withRequestId
  split <;> simp_all

/-- The requests that are accepted, and what becomes of their parameters. -/
theorem validateRequestObject_ok_iff {value : Json F} {request : RequestMessage F} :
    validateRequestObject value = .ok request ↔
      ∃ members action params, value = .obj members ∧ (∀ k ∈ requestFields, k ∈ keys members) ∧
        (∀ k ∈ keys members, k ∈ requestFields) ∧
        validateRequestId (field members (py "request_id")) = .ok request.requestId ∧
        isProtocolVersion (field members (py "version")) = true ∧
        field members (py "action") = .str action ∧ action ≠ [] ∧
        field members (py "params") = .obj params ∧
        validateActionParams action params = .ok (request.action, request.params) ∧
        request.version = protocolVersion := by
  constructor
  · intro h
    obtain ⟨members, hobj, h⟩ := protocol_bind_ok h
    obtain ⟨_, hmissing, h⟩ := protocol_bind_ok h
    obtain ⟨_, hunknown, h⟩ := protocol_bind_ok h
    obtain ⟨id, hid, h⟩ := protocol_bind_ok h
    obtain ⟨_, hversion, h⟩ := protocol_bind_ok h
    obtain ⟨action, haction, h⟩ := protocol_bind_ok h
    obtain ⟨params, hparams, h⟩ := protocol_bind_ok h
    obtain ⟨⟨a, normal⟩, hok, h⟩ := protocol_bind_ok h
    simp only [pure, Except.pure, Except.ok.injEq] at h
    subst h
    obtain ⟨hstr, hne⟩ := requireActionName_ok_iff.1 haction
    exact ⟨members, action, params, requirePlainObject_ok_iff.1 hobj,
      without_eq_nil.1 (ensure_ok_iff.1 hmissing), without_eq_nil.1 (ensure_ok_iff.1 hunknown), hid,
      ensure_ok_iff.1 hversion, hstr, hne, requirePlainObject_ok_iff.1 hparams,
      withRequestId_ok_iff.1 hok, rfl⟩
  · rintro ⟨members, action, params, rfl, hmissing, hunknown, hid, hversion, haction, hne, hparams,
      hok, hv⟩
    obtain ⟨version, requestId, a, normal⟩ := request
    obtain rfl : version = protocolVersion := hv
    simp only [validateRequestObject, requirePlainObject, without_eq_nil.2 hmissing,
      without_eq_nil.2 hunknown, hid, hversion, hparams, ensure, if_true,
      requireActionName_ok_iff.2 ⟨haction, hne⟩, withRequestId_ok_iff.2 hok, bind, Except.bind, pure,
      Except.pure]

/-- The object of a checked request passes the checks unchanged. -/
theorem validateRequestObject_again {value : Json F} {request : RequestMessage F}
    (h : validateRequestObject value = .ok request) :
    validateRequestObject request.toJson = .ok request := by
  obtain ⟨members, action, params, -, -, -, hid, -, -, -, -, hparams, hversion⟩ :=
    validateRequestObject_ok_iff.1 h
  have hname : request.action.name ≠ [] := by
    cases request.action <;> decide
  refine validateRequestObject_ok_iff.2 ⟨_, request.action.name, request.params, rfl, ?_, ?_, ?_, ?_,
    rfl, hname, rfl, validateActionParams_again hparams, hversion⟩
  · exact fun k hk => hk
  · exact fun k hk => hk
  · obtain ⟨heq, -⟩ := validateRequestId_ok hid
    rw [heq] at hid
    exact hid
  · show isProtocolVersion (.int request.version : Json F) = true
    rw [hversion]
    rfl

/-! ## Lines -/

/-- An encoded line is one line, which decodes to the value. -/
theorem encodeJsonLine_ok {v : Json F} {n : Nat} {bytes : Bytes} (hwf : v.WF)
    (h : encodeJsonLine v n = .ok bytes) :
    ∃ data text, bytes = data ++ [lf] ∧ bytes.length ≤ n ∧ lf ∉ data ∧
      decodeUtf8 data = some text ∧ loads text = .ok v := by
  unfold encodeJsonLine at h
  split at h
  · exact absurd h (by simp)
  · next data hdata =>
    split_ifs at h with hlen
    obtain rfl : data ++ [lf] = bytes := by simpa using h
    obtain ⟨text, hdumps, henc⟩ := Option.bind_eq_some_iff.1 hdata
    refine ⟨data, text, rfl, Nat.not_lt.1 hlen, ?_, decodeUtf8_encodeUtf8 henc,
      loads_dumps hwf hdumps⟩
    intro hlf
    have hmem := ascii_mem_encodeUtf8 henc hlf (by decide)
    have hprint : v.print .compact 0 = text := by
      unfold dumps at hdumps
      split_ifs at hdumps
      simpa using hdumps
    rw [← hprint] at hmem
    exact absurd (print_printable Layout.compact_oneLine v 0 _ hmem) (by decide)

theorem encodeJsonLine_ascii {v : Json F} {n : Nat} (henc : v.encodable false = true)
    (hascii : ∀ s ∈ v.strings, ∀ c ∈ s, c < 128) (hlen : (v.print .compact 0).length < n) :
    ∃ data, encodeJsonLine v n = .ok data := by
  have htext := encodeUtf8_print_ascii .compact v 0 hascii
  refine ⟨(v.print .compact 0).map UInt8.ofNat ++ [lf], ?_⟩
  have hfits : ¬ ((v.print .compact 0).map UInt8.ofNat ++ [lf]).length > n := by
    simp only [List.length_append, List.length_map, List.length_cons, List.length_nil]
    omega
  simp only [encodeJsonLine, dumps, henc, if_true, Option.bind_some, htext, if_neg hfits]

omit [PyFloat F] in
theorem normalizeParams_wf {a : IpcAction} {params params' : Mapping F}
    (hwf : (Json.obj params).WF) (h : normalizeParams a params = .ok params') :
    (Json.obj params').WF := by
  obtain ⟨-, rfl | ⟨k, -, v, hv, rfl⟩⟩ := normalizeParams_ok h
  · exact hwf
  · refine ⟨assign_nodup hwf.1, wfMembers_iff.2 fun kv hkv => ?_⟩
    rcases mem_assign hkv with rfl | hkv
    · exact hv
    · exact wfMembers_iff.1 hwf.2 kv hkv

theorem build_wf {requestId action : PyStr} {params : Option (Mapping F)} {request : RequestMessage F}
    (hwf : (Json.obj (params.getD [])).WF) (h : buildRequest requestId action params = .ok request) :
    request.toJson.WF := by
  obtain ⟨members, name, given, hobj, -, -, -, -, -, -, hgiven, hok, -⟩ :=
    validateRequestObject_ok_iff.1 h
  obtain rfl : _ = members := by simpa using hobj
  obtain rfl : params.getD [] = given := Json.obj.inj hgiven
  have hparams := normalizeParams_wf hwf (validateActionParams_ok_iff.1 hok).2.2.2
  have hkeys : requestFields.Nodup := by decide
  exact ⟨hkeys, trivial, trivial, trivial, hparams, trivial⟩

/-- **The server reads the request the client built.** -/
theorem decodeRequestLine_of_build {requestId action : PyStr} {params : Option (Mapping F)}
    {request : RequestMessage F} {bytes : Bytes} {n : Nat} (hwf : (Json.obj (params.getD [])).WF)
    (hbuild : buildRequest requestId action params = .ok request)
    (hbytes : encodeJsonLine request.toJson n = .ok bytes) (hn : n ≤ maxRequestBytes) :
    ∃ line, bytes = line ++ [lf] ∧ bytes.length ≤ n ∧ lf ∉ line ∧
      decodeRequestLine jsonLoads line = .ok request := by
  obtain ⟨line, text, rfl, hlen, hlf, htext, hloads⟩ := encodeJsonLine_ok (build_wf hwf hbuild) hbytes
  refine ⟨line, rfl, hlen, hlf, ?_⟩
  have hne : line ≠ [] := by
    rintro rfl
    obtain rfl : [] = text := by simpa [decodeUtf8] using htext
    exact absurd hloads (by simp [loads, skipWs, parseValue])
  have hshort : ¬ line.length > maxRequestBytes := by
    simp only [List.length_append, List.length_cons, List.length_nil] at hlen
    omega
  simp only [decodeRequestLine, if_neg hne, if_neg hshort, htext, jsonLoads, hloads,
    validateRequestObject_again hbuild]

omit [PyFloat F] in
theorem build_params {requestId action : PyStr} {given : Mapping F} {request : RequestMessage F}
    [PyFloat F] (h : buildRequest requestId action (some given) = .ok request) :
    request.requestId = requestId ∧ request.version = protocolVersion ∧
      validateActionParams action given = .ok (request.action, request.params) := by
  obtain ⟨members, name, params, hobj, -, -, hid, -, hname, -, hparams, hok, hversion⟩ :=
    validateRequestObject_ok_iff.1 h
  obtain rfl : _ = members := by simpa using hobj
  obtain rfl : given = params := Json.obj.inj hparams
  obtain rfl : action = name := Json.str.inj hname
  exact ⟨(Json.str.inj (validateRequestId_ok hid).1).symm, hversion, hok⟩

/-- **A built request survives its encoding**: it is one line, the line is decoded to the request, and
    the request with its normalised parameters passes the checks unchanged. -/
theorem request_round_trip {requestId action : PyStr} {params : Option (Mapping F)}
    {request : RequestMessage F} {bytes : Bytes} (hdict : (Json.obj (params.getD [])).WF)
    (hbuild : buildRequest requestId action params = .ok request)
    (hbytes : encodeJsonLine request.toJson maxRequestBytes = .ok bytes) :
    (bytes.count lf = 1 ∧ bytes.getLast? = some lf) ∧
      decodeRequestLine jsonLoads bytes.dropLast = .ok request ∧
      (request.version = protocolVersion ∧ request.requestId = requestId ∧
        validateActionParams action (params.getD []) = .ok (request.action, request.params)) ∧
      validateRequestObject request.toJson = .ok request := by
  obtain ⟨line, rfl, -, hlf, hdecode⟩ := decodeRequestLine_of_build hdict hbuild hbytes le_rfl
  have hbuilt : buildRequest requestId action (some (params.getD [])) = .ok request := hbuild
  obtain ⟨hid, hversion, hparams⟩ := build_params hbuilt
  have hcount : (line ++ [lf]).count lf = 1 := by
    rw [List.count_append, List.count_eq_zero_of_not_mem hlf, List.count_singleton_self]
  refine ⟨⟨hcount, List.getLast?_concat⟩, ?_, ⟨hversion, hid, hparams⟩,
    validateRequestObject_again hbuild⟩
  rw [List.dropLast_concat]
  exact hdecode

end Requests

/-- `list_events` without parameters: the limit is the default. -/
def eventsRequest : RequestMessage SampleFloat :=
  ⟨1, py "r", .listEvents, [(py "limit", .int 50)]⟩

theorem eventsRequest_built :
    buildRequest (F := SampleFloat) (py "r") (py "list_events") none = .ok eventsRequest := by
  refine validateRequestObject_ok_iff.2
    ⟨_, py "list_events", [], rfl, ?_, ?_, rfl, rfl, rfl, by decide, rfl, ?_, rfl⟩
  · exact fun k hk => hk
  · exact fun k hk => hk
  · exact validateActionParams_ok_iff.2 ⟨by decide, by simp [IpcAction.required, eventsRequest],
      by simp [keys], rfl⟩

/-- The line of this request is decoded with the limit in it. -/
theorem eventsRequest_round_trip :
    ∃ bytes, encodeJsonLine eventsRequest.toJson maxRequestBytes = .ok bytes ∧
      bytes.count lf = 1 ∧ decodeRequestLine jsonLoads bytes.dropLast = .ok eventsRequest := by
  have hdict : (Json.obj ((none : Option (Mapping SampleFloat)).getD [])).WF :=
    ⟨List.nodup_nil, trivial⟩
  obtain ⟨bytes, hbytes⟩ : ∃ bytes, encodeJsonLine eventsRequest.toJson maxRequestBytes = .ok bytes :=
    encodeJsonLine_ascii (by decide) (by decide) (by decide +kernel)
  have h := request_round_trip hdict eventsRequest_built hbytes
  exact ⟨bytes, hbytes, h.1.1, h.2.1⟩

end Elyra.Service
