import Elyra.Python.Raising
import Elyra.Service.Requests

set_option autoImplicit false

/-! # The protocol as a schema

What version 1 of the protocol says a request is, apart from the code: the fields, and for each action
its parameters with the values they take. `validate_request_object` accepts these requests, and besides
them those whose version is another value that Python takes to be equal to 1. -/

namespace Elyra.Service

open Elyra.Python

variable {F : Type}

/-! ## The schema -/

/-- A parameter of an action. -/
structure ParamSpec (F : Type) where
  name : PyStr
  required : Bool
  value : Json F → Prop

/-- An absolute path without NUL. -/
def IsPath (v : Json F) : Prop :=
  ∃ s, v = .str s ∧ s.head? = some 47 ∧ s.length ≤ maxPathCharacters ∧ 0 ∉ s

/-- The canonical, lower-case text of a UUID. -/
def IsId (v : Json F) : Prop := ∃ s, v = .str s ∧ Quarantine.isUuid s = true

def IsLimit (v : Json F) : Prop := ∃ n : Int, v = .int n ∧ 1 ≤ n ∧ n ≤ 200

def IsMode (v : Json F) : Prop := v = .str (py "MONITOR_ONLY") ∨ v = .str (py "ENFORCEMENT")

/-- The parameters of an action. -/
def IpcAction.schema : IpcAction → List (ParamSpec F)
  | .listEvents => [⟨py "limit", false, IsLimit⟩]
  | .listRuntimeStates => [⟨py "limit", false, IsLimit⟩]
  | .scanFile => [⟨py "path", true, IsPath⟩]
  | .restoreFile =>
      [⟨py "quarantine_id", true, IsId⟩,
        ⟨py "destination", false, fun v => v = .null ∨ IsPath v⟩]
  | .deletePermanently => [⟨py "quarantine_id", true, IsId⟩]
  | .updateEnforcementPolicy => [⟨py "mode", true, IsMode⟩]
  | _ => []

/-- The parameters match a schema. -/
structure Matches (schema : List (ParamSpec F)) (params : Mapping F) : Prop where
  required : ∀ p ∈ schema, p.required = true → p.name ∈ keys params
  known : ∀ k ∈ keys params, ∃ p ∈ schema, p.name = k
  values : ∀ p ∈ schema, ∀ v, lookup p.name params = some v → p.value v

/-- A request as the protocol has it, but for its version. -/
structure RequestBody (members : Mapping F) : Prop where
  missing : ∀ k ∈ requestFields, k ∈ keys members
  unknown : ∀ k ∈ keys members, k ∈ requestFields
  requestId : ∃ s, lookup (py "request_id") members = some (.str s) ∧ 1 ≤ s.length ∧
    s.length ≤ 128 ∧ ∀ c ∈ s, isRequestIdChar c = true
  action : ∃ (a : IpcAction) (params : Mapping F),
    lookup (py "action") members = some (.str a.name) ∧
      lookup (py "params") members = some (.obj params) ∧ Matches a.schema params

/-- A request of protocol version 1. -/
def IsRequest (v : Json F) : Prop :=
  ∃ members, v = .obj members ∧ RequestBody members ∧
    lookup (py "version") members = some (.int 1)

/-- A request whose version is `true`, or the float 1.0. -/
def LooselyVersioned [PyFloat F] (v : Json F) : Prop :=
  ∃ members, v = .obj members ∧ RequestBody members ∧
    (lookup (py "version") members = some (.bool true) ∨
      ∃ f, lookup (py "version") members = some (.float f) ∧ PyFloat.finite f = true ∧
        PyFloat.repr f = py "1.0")

/-! ## Parameters -/

theorem requireString_ok_iff {params : Mapping F} {name s : PyStr} {n : Nat} :
    requireString params name false n = .ok (some s) ↔
      lookup name params = some (.str s) ∧ s ≠ [] ∧ s.length ≤ n ∧ 0 ∉ s := by
  constructor
  · intro h
    have hlookup := requireString_some h
    simp only [requireString, hlookup] at h
    split_ifs at h with hne hlen hnul
    exact ⟨hlookup, hne, Nat.not_lt.1 hlen, hnul⟩
  · rintro ⟨hlookup, hne, hlen, hnul⟩
    simp only [requireString, hlookup, if_neg hne, if_neg (Nat.not_lt.2 hlen), if_neg hnul]

theorem requireString_none {params : Mapping F} {name : PyStr} {n : Nat} :
    requireString params name false n ≠ .ok none := by
  intro h
  unfold requireString at h
  split at h
  · next hallow => cases hallow
  · next hallow => cases hallow
  · split_ifs at h
    cases h
  · cases h

theorem isPath_iff {v : Json F} :
    IsPath v ↔ ∃ s, v = .str s ∧ (s ≠ [] ∧ s.length ≤ maxPathCharacters ∧ 0 ∉ s) ∧
      startsWithSlash s = true := by
  constructor
  · rintro ⟨s, rfl, hhead, hlen, hnul⟩
    refine ⟨s, rfl, ⟨?_, hlen, hnul⟩, beq_iff_eq.2 hhead⟩
    rintro rfl
    cases hhead
  · rintro ⟨s, rfl, ⟨-, hlen, hnul⟩, hslash⟩
    exact ⟨s, rfl, beq_iff_eq.1 hslash, hlen, hnul⟩

theorem validateScanPath_isOk_iff {params : Mapping F} :
    (∃ params', validateScanPath params = .ok params') ↔
      ∃ v, lookup (py "path") params = some v ∧ IsPath v := by
  constructor
  · rintro ⟨params', h⟩
    obtain ⟨o, ho, h⟩ := bind_ok.1 h
    cases o with
    | none => exact absurd ho requireString_none
    | some s =>
        obtain ⟨hlookup, hs⟩ := requireString_ok_iff.1 ho
        by_cases hslash : startsWithSlash s = true
        · exact ⟨_, hlookup, isPath_iff.2 ⟨s, rfl, hs, hslash⟩⟩
        · simp only [if_neg hslash] at h
          cases h
  · rintro ⟨v, hlookup, hpath⟩
    obtain ⟨s, rfl, hs, hslash⟩ := isPath_iff.1 hpath
    refine ⟨assign (py "path") (.str s) params, ?_⟩
    refine bind_ok.2 ⟨some s, requireString_ok_iff.2 ⟨hlookup, hs⟩, ?_⟩
    exact if_pos hslash

theorem requireString_id_iff {params : Mapping F} {s : PyStr} (huuid : Quarantine.isUuid s = true) :
    requireString params (py "quarantine_id") false 64 = .ok (some s) ↔
      lookup (py "quarantine_id") params = some (.str s) := by
  rw [requireString_ok_iff]
  refine and_iff_left ⟨?_, ?_, ?_⟩
  · rintro rfl
    exact absurd huuid (by decide)
  · rw [Quarantine.isUuid_length huuid]
    decide
  · intro h0
    exact absurd (Quarantine.isUuid_mem huuid h0) (by decide)

theorem validateQuarantineIdParam_isOk_iff {params : Mapping F} :
    (∃ params', validateQuarantineIdParam params = .ok params') ↔
      ∃ v, lookup (py "quarantine_id") params = some v ∧ IsId v := by
  constructor
  · rintro ⟨params', h⟩
    obtain ⟨-, id, huuid, hlookup⟩ := validateQuarantineIdParam_ok h
    exact ⟨_, hlookup, id, rfl, huuid⟩
  · rintro ⟨_, hlookup, id, rfl, huuid⟩
    refine ⟨assign (py "quarantine_id") (.str id) params, ?_⟩
    refine bind_ok.2 ⟨some id, (requireString_id_iff huuid).2 hlookup, ?_⟩
    exact bind_ok.2 ⟨id, if_pos huuid, rfl⟩

theorem validateMode_isOk_iff {params : Mapping F} :
    (∃ params', validateMode params = .ok params') ↔
      ∃ v, lookup (py "mode") params = some v ∧ IsMode v := by
  constructor
  · rintro ⟨params', h⟩
    obtain ⟨-, mode, hmode, hlookup⟩ := validateMode_ok h
    refine ⟨_, hlookup, ?_⟩
    rcases List.mem_pair.1 hmode with rfl | rfl
    · exact .inl rfl
    · exact .inr rfl
  · rintro ⟨v, hlookup, hv⟩
    obtain ⟨mode, rfl, hmode⟩ : ∃ mode, v = .str mode ∧
        mode ∈ [py "MONITOR_ONLY", py "ENFORCEMENT"] := by
      rcases hv with rfl | rfl
      · exact ⟨_, rfl, List.mem_cons_self ..⟩
      · exact ⟨_, rfl, List.mem_cons_of_mem _ (List.mem_singleton_self _)⟩
    have hstr : mode ≠ [] ∧ mode.length ≤ 32 ∧ 0 ∉ mode := by
      rcases List.mem_pair.1 hmode with rfl | rfl <;> decide
    refine ⟨assign (py "mode") (.str mode) params, ?_⟩
    refine bind_ok.2 ⟨some mode, requireString_ok_iff.2 ⟨hlookup, hstr⟩, ?_⟩
    exact if_pos hmode

theorem validateLimit_isOk_iff (params : Mapping F) :
    (∃ params', validateLimit params = .ok params') ↔
      ∀ v, lookup (py "limit") params = some v → IsLimit v := by
  cases hlookup : lookup (py "limit") params with
  | none =>
      refine iff_of_true ⟨assign (py "limit") (.int 50) params, ?_⟩ nofun
      simp only [validateLimit, hlookup, Option.getD_none]
      rfl
  | some v =>
      simp only [validateLimit, hlookup, Option.getD_some, Option.some.injEq, forall_eq']
      constructor
      · rintro ⟨params', h⟩
        split at h
        · split_ifs at h with hn
          exact ⟨_, rfl, hn⟩
        · cases h
      · rintro ⟨n, rfl, hn⟩
        exact ⟨_, if_pos hn⟩

/-- The optional destination: absent and `null` mean the same. -/
theorem requireString_allowNone_iff {params : Mapping F} {name : PyStr} {n : Nat} :
    requireString params name true n = .ok none ↔
      ∀ v, lookup name params = some v → v = .null := by
  cases hlookup : lookup name params with
  | none => simp [requireString, hlookup]
  | some v =>
      simp only [requireString, hlookup, Option.some.injEq, forall_eq']
      cases v with
      | null => simp
      | str s =>
          simp only [reduceCtorEq, iff_false]
          split_ifs <;> simp
      | _ => simp

theorem requireString_allowed_iff {params : Mapping F} {name s : PyStr} {n : Nat} :
    requireString params name true n = .ok (some s) ↔
      requireString params name false n = .ok (some s) := by
  cases hlookup : lookup name params with
  | none => simp [requireString, hlookup]
  | some v => cases v <;> simp [requireString, hlookup]

theorem validateDestination_isOk_iff {params : Mapping F} :
    (∃ params', validateDestination params = .ok params') ↔
      ∀ v, lookup (py "destination") params = some v → v = .null ∨ IsPath v := by
  constructor
  · rintro ⟨params', h⟩ v hlookup
    obtain ⟨o, ho, h⟩ := bind_ok.1 h
    cases o with
    | none => exact .inl (requireString_allowNone_iff.1 ho v hlookup)
    | some s =>
        obtain ⟨hlookup', hs⟩ := requireString_ok_iff.1 (requireString_allowed_iff.1 ho)
        obtain rfl := Option.some.inj (hlookup.symm.trans hlookup')
        by_cases hslash : startsWithSlash s = true
        · exact .inr (isPath_iff.2 ⟨s, rfl, hs, hslash⟩)
        · simp only [if_neg hslash] at h
          cases h
  · intro h
    by_cases hnull : ∀ v, lookup (py "destination") params = some v → v = .null
    · exact ⟨_, bind_ok.2 ⟨none, requireString_allowNone_iff.2 hnull, rfl⟩⟩
    · push Not at hnull
      obtain ⟨v, hlookup, hne⟩ := hnull
      obtain ⟨s, rfl, hs, hslash⟩ := isPath_iff.1 ((h v hlookup).resolve_left hne)
      refine ⟨assign (py "destination") (.str s) params, ?_⟩
      have hok := requireString_allowed_iff.2 (requireString_ok_iff.2 ⟨hlookup, hs⟩)
      exact bind_ok.2 ⟨some s, hok, if_pos hslash⟩

/-- The id is checked first; the destination is another parameter. -/
theorem restoreFile_isOk_iff {params : Mapping F} :
    (∃ params', normalizeParams .restoreFile params = .ok params') ↔
      (∃ v, lookup (py "quarantine_id") params = some v ∧ IsId v) ∧
        ∀ v, lookup (py "destination") params = some v → v = .null ∨ IsPath v := by
  rw [← validateQuarantineIdParam_isOk_iff, ← validateDestination_isOk_iff]
  constructor
  · rintro ⟨params', h⟩
    obtain ⟨params₁, hid, hdest⟩ := bind_ok.1 h
    obtain rfl := (validateQuarantineIdParam_ok hid).1
    exact ⟨⟨_, hid⟩, _, hdest⟩
  · rintro ⟨⟨params₁, hid⟩, params', hdest⟩
    obtain rfl := (validateQuarantineIdParam_ok hid).1
    exact ⟨params', bind_ok.2 ⟨_, hid, hdest⟩⟩

/-! ## Schemas -/

theorem required_eq (a : IpcAction) :
    a.required = ((a.schema (F := F)).filter (·.required)).map (·.name) := by
  cases a <;> rfl

theorem known_iff (a : IpcAction) (k : PyStr) :
    (∃ p ∈ a.schema (F := F), p.name = k) ↔ k ∈ a.required ∨ k ∈ a.optional := by
  cases a <;> simp [IpcAction.schema, IpcAction.required, IpcAction.optional, eq_comm]

theorem required_iff (a : IpcAction) (params : Mapping F) :
    (∀ p ∈ a.schema (F := F), p.required = true → p.name ∈ keys params) ↔
      ∀ k ∈ a.required, k ∈ keys params := by
  rw [required_eq (F := F)]
  constructor
  · intro h k hk
    obtain ⟨p, hp, rfl⟩ := List.mem_map.1 hk
    exact h p (List.mem_filter.1 hp).1 (List.mem_filter.1 hp).2
  · intro h p hp hreq
    exact h _ (List.mem_map.2 ⟨p, List.mem_filter.2 ⟨hp, hreq⟩, rfl⟩)

theorem lookup_of_mem {k : PyStr} {params : Mapping F} (h : k ∈ keys params) :
    ∃ v, lookup k params = some v := by
  rw [← Option.ne_none_iff_exists']
  exact fun hnone => lookup_eq_none_iff.1 hnone h

/-- A parameter that is there has a value that matches. -/
theorem exists_value_iff {k : PyStr} {params : Mapping F} {P : Json F → Prop} (h : k ∈ keys params) :
    (∃ v, lookup k params = some v ∧ P v) ↔ ∀ v, lookup k params = some v → P v := by
  obtain ⟨v, hv⟩ := lookup_of_mem h
  simp [hv]

theorem normalizeParams_isOk_iff {a : IpcAction} {params : Mapping F}
    (hreq : ∀ k ∈ a.required, k ∈ keys params) :
    (∃ params', normalizeParams a params = .ok params') ↔
      ∀ p ∈ a.schema (F := F), ∀ v, lookup p.name params = some v → p.value v := by
  cases a with
  | getStatus | listQuarantine | getPolicy => simp [normalizeParams, IpcAction.schema]
  | listEvents | listRuntimeStates =>
      simpa [normalizeParams, IpcAction.schema] using validateLimit_isOk_iff params
  | scanFile =>
      have hmem : py "path" ∈ keys params := hreq _ (List.mem_singleton_self _)
      simpa [normalizeParams, IpcAction.schema] using validateScanPath_isOk_iff.trans (exists_value_iff hmem)
  | deletePermanently =>
      have hmem : py "quarantine_id" ∈ keys params := hreq _ (List.mem_singleton_self _)
      simpa [normalizeParams, IpcAction.schema] using validateQuarantineIdParam_isOk_iff.trans (exists_value_iff hmem)
  | updateEnforcementPolicy =>
      have hmem : py "mode" ∈ keys params := hreq _ (List.mem_singleton_self _)
      simpa [normalizeParams, IpcAction.schema] using validateMode_isOk_iff.trans (exists_value_iff hmem)
  | restoreFile =>
      have hmem : py "quarantine_id" ∈ keys params := hreq _ (List.mem_singleton_self _)
      rw [restoreFile_isOk_iff, exists_value_iff hmem]
      simp [IpcAction.schema]

/-- The parameters of an action are accepted exactly if they match its schema. -/
theorem validateActionParams_isOk_iff {a : IpcAction} {params : Mapping F} :
    (∃ params', validateActionParams a.name params = .ok (a, params')) ↔
      Matches a.schema params := by
  constructor
  · rintro ⟨params', h⟩
    obtain ⟨-, hreq, hknown, hnormal⟩ := validateActionParams_ok_iff.1 h
    exact ⟨(required_iff a params).2 hreq, fun k hk => (known_iff a k).2 (hknown k hk),
      (normalizeParams_isOk_iff hreq).1 ⟨_, hnormal⟩⟩
  · intro h
    have hreq := (required_iff a params).1 h.required
    obtain ⟨params', hnormal⟩ := (normalizeParams_isOk_iff hreq).2 h.values
    exact ⟨params', validateActionParams_ok_iff.2 ⟨a.ofName_name, hreq,
      fun k hk => (known_iff a k).1 (h.known k hk), hnormal⟩⟩

/-! ## Requests -/

theorem validateRequestId_isOk_iff {v : Json F} :
    (∃ id, validateRequestId v = .ok id) ↔
      ∃ s, v = .str s ∧ 1 ≤ s.length ∧ s.length ≤ 128 ∧ ∀ c ∈ s, isRequestIdChar c = true := by
  constructor
  · rintro ⟨id, h⟩
    obtain ⟨rfl, hne, hlen, hall⟩ := validateRequestId_ok h
    exact ⟨id, rfl, List.length_pos_iff.2 hne, hlen, List.all_eq_true.1 hall⟩
  · rintro ⟨s, rfl, hpos, hlen, hall⟩
    refine ⟨s, ?_⟩
    have hgood : ¬ (s.length > maxRequestIdCharacters ∨ s.all isRequestIdChar = false) := by
      rw [List.all_eq_true.2 hall]
      simp [maxRequestIdCharacters, hlen]
    rw [validateRequestId, if_neg (List.length_pos_iff.1 hpos), if_neg hgood]

theorem lookup_field {members : Mapping F} {name : PyStr} {v : Json F} (hv : v ≠ .null) :
    field members name = v ↔ lookup name members = some v := by
  unfold field
  cases lookup name members with
  | none => simpa using hv.symm
  | some w => simp

variable [PyFloat F]

/-- The values that `value == PROTOCOL_VERSION` lets pass. -/
theorem isProtocolVersion_iff {v : Json F} :
    isProtocolVersion v = true ↔ v = .int 1 ∨ v = .bool true ∨
      ∃ f, v = .float f ∧ PyFloat.finite f = true ∧ PyFloat.repr f = py "1.0" := by
  cases v <;> simp [isProtocolVersion, protocolVersion]

/-- What the code accepts: a request but for its version, with a version that compares equal to 1. -/
theorem validateRequestObject_isOk_iff {v : Json F} :
    (∃ request, validateRequestObject v = .ok request) ↔
      ∃ members, v = .obj members ∧ RequestBody members ∧
        isProtocolVersion (field members (py "version")) = true := by
  constructor
  · rintro ⟨request, h⟩
    obtain ⟨members, action, params, rfl, hmissing, hunknown, hid, hversion, haction, hne, hparams,
      hok, -⟩ := validateRequestObject_ok_iff.1 h
    refine ⟨members, rfl, ⟨hmissing, hunknown, ?_, ?_⟩, hversion⟩
    · obtain ⟨s, hs, hrest⟩ := validateRequestId_isOk_iff.1 ⟨_, hid⟩
      exact ⟨s, (lookup_field (by simp)).1 hs, hrest⟩
    · obtain rfl := IpcAction.name_of_ofName (validateActionParams_ok_iff.1 hok).1
      exact ⟨request.action, params, (lookup_field (by simp)).1 haction,
        (lookup_field (by simp)).1 hparams, validateActionParams_isOk_iff.1 ⟨_, hok⟩⟩
  · rintro ⟨members, rfl, hbody, hversion⟩
    obtain ⟨s, hs, hrest⟩ := hbody.requestId
    obtain ⟨a, params, haction, hparams, hmatches⟩ := hbody.action
    obtain ⟨id, hid⟩ := validateRequestId_isOk_iff.2 ⟨s, (lookup_field (by simp)).2 hs, hrest⟩
    obtain ⟨params', hok⟩ := validateActionParams_isOk_iff.2 hmatches
    have hname : a.name ≠ [] := by
      cases a <;> decide
    exact ⟨⟨protocolVersion, id, a, params'⟩, validateRequestObject_ok_iff.2
      ⟨members, a.name, params, rfl, hbody.missing, hbody.unknown, hid, hversion,
        (lookup_field (by simp)).2 haction, hname, (lookup_field (by simp)).2 hparams, hok, rfl⟩⟩

/-- The accepted values: the requests of version 1, and those whose version is another value that is
    equal to it in Python. -/
theorem validateRequestObject_isOk_cases (v : Json F) :
    (∃ request, validateRequestObject v = .ok request) ↔ IsRequest v ∨ LooselyVersioned v := by
  rw [validateRequestObject_isOk_iff]
  constructor
  · rintro ⟨members, rfl, hbody, hversion⟩
    rcases isProtocolVersion_iff.1 hversion with h | h | ⟨f, h, hfinite, hrepr⟩
    · exact .inl ⟨members, rfl, hbody, (lookup_field (by simp)).1 h⟩
    · exact .inr ⟨members, rfl, hbody, .inl ((lookup_field (by simp)).1 h)⟩
    · exact .inr ⟨members, rfl, hbody, .inr ⟨f, (lookup_field (by simp)).1 h, hfinite, hrepr⟩⟩
  · rintro (⟨members, rfl, hbody, h⟩ | ⟨members, rfl, hbody, h | ⟨f, h, hfinite, hrepr⟩⟩)
    · exact ⟨members, rfl, hbody, isProtocolVersion_iff.2 (.inl ((lookup_field (by simp)).2 h))⟩
    · exact ⟨members, rfl, hbody,
        isProtocolVersion_iff.2 (.inr (.inl ((lookup_field (by simp)).2 h)))⟩
    · exact ⟨members, rfl, hbody,
        isProtocolVersion_iff.2 (.inr (.inr ⟨f, (lookup_field (by simp)).2 h, hfinite, hrepr⟩))⟩

theorem IsRequest.not_loose {v : Json F} (h : IsRequest v) : ¬ LooselyVersioned v := by
  obtain ⟨members, rfl, -, hlookup⟩ := h
  rintro ⟨members', hobj, -, hloose⟩
  obtain rfl := Json.obj.inj hobj
  rw [hlookup] at hloose
  rcases hloose with hbool | ⟨f, hfloat, -⟩
  · cases hbool
  · cases hfloat

/-- **The validator accepts the protocol, but for requests whose version is `true` or 1.0.** -/
theorem accepts_iff_not_loose (v : Json F) :
    ((∃ request, validateRequestObject v = .ok request) ↔ IsRequest v) ↔ ¬ LooselyVersioned v := by
  rw [validateRequestObject_isOk_cases]
  constructor
  · exact fun h hloose => IsRequest.not_loose (h.1 (.inr hloose)) hloose
  · exact fun h => or_iff_left h

/-- A request of version `true`. -/
def looseRequest : Mapping F :=
  [(py "version", .bool true), (py "request_id", .str (py "r")),
    (py "action", .str (py "get_status")), (py "params", .obj [])]

theorem looseRequest_body : RequestBody (looseRequest : Mapping SampleFloat) where
  missing := by decide
  unknown := by decide
  requestId := ⟨py "r", rfl, by decide, by decide, by decide⟩
  action := ⟨.getStatus, [], rfl, rfl, nofun, nofun, nofun⟩

/-- It is accepted, and it is no request of version 1. -/
theorem looseRequest_accepted :
    ¬ ((∃ request, validateRequestObject (.obj looseRequest : Json SampleFloat) = .ok request) ↔
      IsRequest (.obj looseRequest : Json SampleFloat)) := by
  intro h
  have hloose : LooselyVersioned (.obj looseRequest : Json SampleFloat) :=
    ⟨_, rfl, looseRequest_body, .inl rfl⟩
  exact (h.1 ((validateRequestObject_isOk_cases _).2 (.inr hloose))).not_loose hloose

end Elyra.Service
