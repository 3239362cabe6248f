import Elyra.Audit.Record
import Elyra.Posix.Files

set_option autoImplicit false

/-! # Quarantine records

The record of a quarantined file (`QuarantineRecord` of `response/quarantine_manager.py`), its checks
and its metadata file. The annotations of the dataclass are not enforced, so a field is any JSON
value and `_validate_record` is what makes a record usable. A metadata file is the sorted, indented
JSON text of the record. Reading it back gives the same record with the dictionaries inside it in key
order (`decodeRecord_encode`), which encodes to the same bytes. -/

namespace Elyra.Quarantine

open Elyra.Python Elyra.Posix
open Elyra.Audit (isHexDigit validHexHash)

variable {F : Type}

/-! ## Exceptions -/

/-- `QuarantineError` and its subclasses. -/
inductive ErrorKind where
  | quarantine
  | integrity
  | conflict
  | metadata
  deriving DecidableEq, Repr

/-- The exceptions the manager handles. `unicode` and `jsonDecode` are `ValueError`s. -/
inductive Exc where
  | os (e : Errno)
  | unicode
  | jsonDecode
  | value
  | type
  | error (kind : ErrorKind) (text : PyStr)
  deriving DecidableEq, Repr

theorem except_bind_ok {α β : Type} {x : Except Exc α} {g : α → Except Exc β} {b : β}
    (h : (x >>= g) = .ok b) : ∃ a, x = .ok a ∧ g a = .ok b := by
  cases x with
  | error e => exact absurd h (by simp [bind, Except.bind])
  | ok a => exact ⟨a, rfl, h⟩

/-! ## Identifiers -/

/-- `text.lower()` on the ASCII letters. -/
def lower (s : PyStr) : PyStr := s.map fun c => if 65 ≤ c ∧ c ≤ 90 then c + 32 else c

/-- The canonical text of a UUID: lower-case hexadecimal digits in groups of 8, 4, 4, 4 and 12. -/
def isUuid (s : PyStr) : Bool :=
  s.length == 36 && s.zipIdx.all fun ci =>
    if ci.2 ∈ [8, 13, 18, 23] then ci.1 == 45 else isHexDigit ci.1

/-- `text.replace(pattern, "")`, by fuel. -/
def removeText (pattern : PyStr) : Nat → PyStr → PyStr
  | 0, s => s
  | _ + 1, [] => []
  | fuel + 1, c :: s =>
      match stripText pattern (c :: s) with
      | some rest => removeText pattern fuel rest
      | none => c :: removeText pattern fuel s

/-- Whether `uuid.UUID(text)` accepts a text of hexadecimal digits: prefixes, braces and hyphens are
    dropped and 32 digits are left. -/
def parsesAsUuid (s : PyStr) : Bool :=
  let hex := removeText (py "uuid:") s.length (removeText (py "urn:") s.length s)
  let bare := ((hex.dropWhile (· ∈ py "{}")).reverse.dropWhile (· ∈ py "{}")).reverse
  let digits := bare.filter (· ≠ 45)
  digits.length == 32 && (lower digits).all isHexDigit

/-- `_validate_quarantine_id`. -/
def validateQuarantineId : Json F → Except Exc PyStr
  | .str s =>
      if isUuid (lower s) then .ok (lower s)
      else if parsesAsUuid s then .error (.error .metadata (py "Quarantine ID is not canonical"))
      else .error (.error .metadata (py "Invalid quarantine ID"))
  | _ => .error (.error .metadata (py "Quarantine ID must be a string"))

/-! ## Records -/

structure QuarantineRecord (F : Type) where
  schemaVersion : Json F
  quarantineId : Json F
  originalPath : Json F
  sha256 : Json F
  sizeBytes : Json F
  fileType : Json F
  timestamp : Json F
  timestampUtc : Json F
  reason : Json F
  relatedPid : Json F
  processInfo : Json F
  triggeredRules : Json F
  originalMode : Json F
  originalUid : Json F
  originalGid : Json F
  sourceDevice : Json F
  sourceInode : Json F
  sourceLinkCount : Json F
  restorationStatus : Json F := .str (py "quarantined")
  restoredAt : Json F := .null
  restoredAtUtc : Json F := .null
  restoredPath : Json F := .null
  restoredMode : Json F := .null
  ownershipRestored : Json F := .bool false
  deletedAt : Json F := .null
  deletedAtUtc : Json F := .null

namespace QuarantineRecord

/-- `to_dict`. -/
def toDict (r : QuarantineRecord F) : Mapping F :=
  [(py "schema_version", r.schemaVersion),
    (py "quarantine_id", r.quarantineId),
    (py "original_path", r.originalPath),
    (py "sha256", r.sha256),
    (py "size_bytes", r.sizeBytes),
    (py "file_type", r.fileType),
    (py "timestamp", r.timestamp),
    (py "timestamp_utc", r.timestampUtc),
    (py "reason", r.reason),
    (py "related_pid", r.relatedPid),
    (py "process_info", r.processInfo),
    (py "triggered_rules", r.triggeredRules),
    (py "original_mode", r.originalMode),
    (py "original_uid", r.originalUid),
    (py "original_gid", r.originalGid),
    (py "source_device", r.sourceDevice),
    (py "source_inode", r.sourceInode),
    (py "source_link_count", r.sourceLinkCount),
    (py "restoration_status", r.restorationStatus),
    (py "restored_at", r.restoredAt),
    (py "restored_at_utc", r.restoredAtUtc),
    (py "restored_path", r.restoredPath),
    (py "restored_mode", r.restoredMode),
    (py "ownership_restored", r.ownershipRestored),
    (py "deleted_at", r.deletedAt),
    (py "deleted_at_utc", r.deletedAtUtc)]

def fieldNames : List PyStr :=
  [py "schema_version", py "quarantine_id", py "original_path", py "sha256", py "size_bytes",
    py "file_type", py "timestamp", py "timestamp_utc", py "reason", py "related_pid",
    py "process_info", py "triggered_rules", py "original_mode", py "original_uid",
    py "original_gid", py "source_device", py "source_inode", py "source_link_count",
    py "restoration_status", py "restored_at", py "restored_at_utc", py "restored_path",
    py "restored_mode", py "ownership_restored", py "deleted_at", py "deleted_at_utc"]

/-- `QuarantineRecord(**data)`; `none` is the `TypeError` of an unknown or a missing field. -/
def ofData (data : Mapping F) : Option (QuarantineRecord F) :=
  if data.all (fun kv => kv.1 ∈ fieldNames) then do
    return {
      schemaVersion := ← lookup (py "schema_version") data
      quarantineId := ← lookup (py "quarantine_id") data
      originalPath := ← lookup (py "original_path") data
      sha256 := ← lookup (py "sha256") data
      sizeBytes := ← lookup (py "size_bytes") data
      fileType := ← lookup (py "file_type") data
      timestamp := ← lookup (py "timestamp") data
      timestampUtc := ← lookup (py "timestamp_utc") data
      reason := ← lookup (py "reason") data
      relatedPid := ← lookup (py "related_pid") data
      processInfo := ← lookup (py "process_info") data
      triggeredRules := ← lookup (py "triggered_rules") data
      originalMode := ← lookup (py "original_mode") data
      originalUid := ← lookup (py "original_uid") data
      originalGid := ← lookup (py "original_gid") data
      sourceDevice := ← lookup (py "source_device") data
      sourceInode := ← lookup (py "source_inode") data
      sourceLinkCount := ← lookup (py "source_link_count") data
      restorationStatus := (lookup (py "restoration_status") data).getD (.str (py "quarantined"))
      restoredAt := (lookup (py "restored_at") data).getD .null
      restoredAtUtc := (lookup (py "restored_at_utc") data).getD .null
      restoredPath := (lookup (py "restored_path") data).getD .null
      restoredMode := (lookup (py "restored_mode") data).getD .null
      ownershipRestored := (lookup (py "ownership_restored") data).getD (.bool false)
      deletedAt := (lookup (py "deleted_at") data).getD .null
      deletedAtUtc := (lookup (py "deleted_at_utc") data).getD .null }
  else none

/-- The record with `f` applied to every field. -/
def mapFields (f : Json F → Json F) (r : QuarantineRecord F) : QuarantineRecord F where
  schemaVersion := f r.schemaVersion
  quarantineId := f r.quarantineId
  originalPath := f r.originalPath
  sha256 := f r.sha256
  sizeBytes := f r.sizeBytes
  fileType := f r.fileType
  timestamp := f r.timestamp
  timestampUtc := f r.timestampUtc
  reason := f r.reason
  relatedPid := f r.relatedPid
  processInfo := f r.processInfo
  triggeredRules := f r.triggeredRules
  originalMode := f r.originalMode
  originalUid := f r.originalUid
  originalGid := f r.originalGid
  sourceDevice := f r.sourceDevice
  sourceInode := f r.sourceInode
  sourceLinkCount := f r.sourceLinkCount
  restorationStatus := f r.restorationStatus
  restoredAt := f r.restoredAt
  restoredAtUtc := f r.restoredAtUtc
  restoredPath := f r.restoredPath
  restoredMode := f r.restoredMode
  ownershipRestored := f r.ownershipRestored
  deletedAt := f r.deletedAt
  deletedAtUtc := f r.deletedAtUtc

/-- The record with the dictionaries inside its fields in key order. -/
def canon (r : QuarantineRecord F) : QuarantineRecord F := r.mapFields Json.sortKeys

end QuarantineRecord

/-! ## Checks -/

section Checks

variable [FloatNum F]

/-- `_require_json_value`. -/
def requireJsonValue (value : Json F) (name : PyStr) : Except Exc Unit :=
  if value.encodable false then .ok ()
  else .error (.error .quarantine (name ++ py " must be JSON-serialisable"))

/-- `record.schema_version == _METADATA_SCHEMA_VERSION`. -/
def isSchemaVersion : Json F → Bool
  | .int n => n == 1
  | .bool b => b
  | .float f => PyFloat.finite f && PyFloat.repr f == py "1.0"
  | _ => false

/-- `Path(text).is_absolute()`. -/
def isAbsolute (s : PyStr) : Bool := s.head? == some 47

def checkOriginalPath : Json F → Except Exc Unit
  | .str s =>
      if isAbsolute s then .ok ()
      else .error (.error .metadata (py "Original path must be absolute"))
  | _ => .error .type

/-- `character in "0123456789abcdef"` for every item that `any` looks at. -/
def checkHexItems : List (Json F) → Except Exc Unit
  | [] => .ok ()
  | .str s :: rest =>
      if (py "0123456789abcdef").tails.any (s.isPrefixOf ·) then checkHexItems rest
      else .error (.error .metadata (py "Invalid SHA-256 value in metadata"))
  | _ :: _ => .error .type

/-- The check of `sha256`; a container of 64 hexadecimal texts passes as well. -/
def checkSha256 : Json F → Except Exc Unit
  | .str s =>
      if validHexHash s then .ok ()
      else .error (.error .metadata (py "Invalid SHA-256 value in metadata"))
  | .arr xs =>
      if xs.length = 64 then checkHexItems xs
      else .error (.error .metadata (py "Invalid SHA-256 value in metadata"))
  | .obj kvs =>
      if kvs.length = 64 then checkHexItems (kvs.map fun kv => (.str kv.1 : Json F))
      else .error (.error .metadata (py "Invalid SHA-256 value in metadata"))
  | _ => .error .type

def checkSizeBytes : Json F → Except Exc Unit
  | .int n =>
      if 0 ≤ n then .ok () else .error (.error .metadata (py "Invalid file size in metadata"))
  | .bool _ => .ok ()
  | _ => .error (.error .metadata (py "Invalid file size in metadata"))

def checkStatus : Json F → Except Exc Unit
  | .str s =>
      if s ∈ [py "quarantined", py "restored", py "deleted"] then .ok ()
      else .error (.error .metadata (py "Invalid restoration status"))
  | .arr _ => .error .type
  | .obj _ => .error .type
  | _ => .error (.error .metadata (py "Invalid restoration status"))

def checkRules : Json F → Except Exc Unit
  | .arr _ => .ok ()
  | _ => .error (.error .metadata (py "triggered_rules must be a list"))

def checkProcessInfo : Json F → Except Exc Unit
  | .obj _ => .ok ()
  | _ => .error (.error .metadata (py "process_info must be an object"))

/-- `_validate_record`. -/
def validateRecord (r : QuarantineRecord F) : Except Exc Unit := do
  if isSchemaVersion r.schemaVersion = false then
    throw (.error .metadata (py "Unsupported metadata schema: " ++ pyStr r.schemaVersion))
  let _ ← validateQuarantineId r.quarantineId
  checkOriginalPath r.originalPath
  checkSha256 r.sha256
  checkSizeBytes r.sizeBytes
  checkStatus r.restorationStatus
  checkRules r.triggeredRules
  checkProcessInfo r.processInfo
  requireJsonValue (.obj r.toDict) (py "metadata")

/-! ## Metadata files -/

/-- The bytes `_write_metadata_atomic` writes for a record. -/
@[irreducible]
def encodeRecord (r : QuarantineRecord F) : Except Exc Bytes :=
  match dumpsSorted (.indented 2) true (.obj r.toDict) with
  | none => .error .value
  | some text =>
      match encodeUtf8 text with
      | none => .error .unicode
      | some data => .ok data

/-- What `_load_metadata` makes of the bytes of the file of `safeId`; `str` is the text of an
    exception. -/
@[irreducible]
def decodeRecord (str : Exc → PyStr) (safeId : PyStr) (data : Bytes) :
    Except Exc (QuarantineRecord F) := do
  let unreadable (e : Exc) : Exc :=
    .error .metadata (py "Metadata cannot be read: " ++ safeId ++ py ": " ++ str e)
  let some text := decodeUtf8 data | throw (unreadable .unicode)
  match loads text with
  | .error .jsonDecodeError => throw (unreadable .jsonDecode)
  -- the digit limit raises a plain `ValueError`, which is not caught
  | .error .valueError => throw .value
  | .ok (.obj members) =>
      let some record := QuarantineRecord.ofData members
        | throw (.error .metadata
            (py "Metadata fields are incomplete or unsupported: " ++ safeId))
      validateRecord record
      match record.quarantineId with
      | .str s =>
          if s = safeId then return record
          else throw (.error .metadata (py "Metadata ID does not match its filename"))
      | _ => throw (.error .metadata (py "Metadata ID does not match its filename"))
  | .ok _ => throw (.error .metadata (py "Metadata root must be an object: " ++ safeId))

end Checks

/-! ## Fields of a record -/

namespace QuarantineRecord

theorem toDict_keys (r : QuarantineRecord F) : keys r.toDict = fieldNames := rfl

theorem toDict_mapFields (f : Json F → Json F) (r : QuarantineRecord F) :
    (r.mapFields f).toDict = r.toDict.map fun kv => (kv.1, f kv.2) := rfl

theorem fieldNames_nodup : fieldNames.Nodup := by decide

theorem toDict_nodup (r : QuarantineRecord F) : (r.toDict.map Prod.fst).Nodup :=
  fieldNames_nodup

/-- Reading the members of a record in key order. -/
theorem ofData_sorted (r : QuarantineRecord F) :
    ofData (sortMembers (sortKeysMembers r.toDict)) = some r.canon := by
  have hkeys : (sortMembers (sortKeysMembers r.toDict)).all (fun kv => kv.1 ∈ fieldNames) := by
    simp only [List.all_eq_true, decide_eq_true_eq]
    intro kv hkv
    have hmem : kv.1 ∈ (sortKeysMembers r.toDict).map Prod.fst :=
      List.mem_map_of_mem ((sortMembers_perm _).mem_iff.1 hkv)
    rwa [sortKeysMembers_keys] at hmem
  have hlookup (k : PyStr) := lookup_sortKeys (toDict_nodup r) k
  unfold ofData
  rw [if_pos hkeys]
  simp only [hlookup]
  rfl

theorem sortKeys_canon (r : QuarantineRecord F) :
    (Json.obj r.canon.toDict).sortKeys = (Json.obj r.toDict).sortKeys := by
  simp only [canon, toDict_mapFields, Json.sortKeys, sortKeysMembers_eq, List.map_map]
  congr 2
  refine List.map_congr_left ?_
  intro kv _
  exact congrArg (Prod.mk kv.1) (sortKeys_sortKeys kv.2)

/-- A record whose fields are Python values: no dictionary repeats a key. -/
def WF (r : QuarantineRecord F) : Prop := (Json.obj r.toDict).WF

theorem wf_iff {r : QuarantineRecord F} : r.WF ↔ ∀ kv ∈ r.toDict, kv.2.WF := by
  refine ⟨fun h => wfMembers_iff.1 h.2, fun h => ⟨toDict_nodup r, wfMembers_iff.2 h⟩⟩

theorem WF.canon {r : QuarantineRecord F} (h : r.WF) : r.canon.WF := by
  rw [wf_iff] at h ⊢
  intro kv hkv
  rw [QuarantineRecord.canon, toDict_mapFields] at hkv
  obtain ⟨kv', hkv', rfl⟩ := List.mem_map.1 hkv
  exact sortKeys_wf _ (h kv' hkv')

end QuarantineRecord

/-! ## Written records -/

theorem isUuid_length {s : PyStr} (h : isUuid s = true) : s.length = 36 := by
  simp only [isUuid, Bool.and_eq_true, beq_iff_eq] at h
  exact h.1

theorem isUuid_mem {s : PyStr} (h : isUuid s = true) {c : Nat} (hc : c ∈ s) :
    c = 45 ∨ isHexDigit c = true := by
  simp only [isUuid, Bool.and_eq_true, List.all_eq_true] at h
  obtain ⟨i, hi, rfl⟩ := List.mem_iff_getElem.1 hc
  have hci := h.2 (s[i], i) (List.mem_zipIdx_iff_getElem?.2 (by simp [hi]))
  split at hci
  · exact .inl (by simpa using hci)
  · exact .inr hci

theorem lower_of_isUuid {s : PyStr} (h : isUuid s = true) : lower s = s := by
  refine (List.map_congr_left ?_).trans (List.map_id s)
  intro c hc
  have hchar := isUuid_mem h hc
  simp only [isHexDigit, isDigit, Bool.or_eq_true, Bool.and_eq_true, decide_eq_true_eq] at hchar
  rw [if_neg (by omega)]
  rfl

theorem validateQuarantineId_of_isUuid {s : PyStr} (h : isUuid s = true) :
    validateQuarantineId (.str s : Json F) = .ok s := by
  simp only [validateQuarantineId, lower_of_isUuid h, h, if_true]

theorem checkHexItems_ok_iff {xs : List (Json F)} : checkHexItems xs = .ok () ↔
    ∀ x ∈ xs, ∃ s, x = .str s ∧ (py "0123456789abcdef").tails.any (s.isPrefixOf ·) = true := by
  induction xs with
  | nil => simp [checkHexItems]
  | cons x xs ih =>
      cases x with
      | str s =>
          by_cases hs : (py "0123456789abcdef").tails.any (s.isPrefixOf ·) = true
          · simp only [checkHexItems, List.forall_mem_cons, Json.str.injEq, exists_eq_left', hs, if_true,
              ih, true_and]
          · simp only [checkHexItems, List.forall_mem_cons, Json.str.injEq,
              exists_eq_left', hs]
            simp
      | null | bool | int | float | arr | obj =>
          simp [checkHexItems]

/-- The check does not see the order of a dictionary. -/
theorem checkSha256_sortKeys {v : Json F} (h : checkSha256 v = .ok ()) :
    checkSha256 v.sortKeys = .ok () := by
  cases v with
  | null | bool | int | float | str => exact h
  | arr xs =>
      simp only [checkSha256] at h
      split at h
      · next hlen =>
        have hitems := checkHexItems_ok_iff.1 h
        simp only [Json.sortKeys, sortKeysList_eq, checkSha256, List.length_map, hlen, if_true]
        refine checkHexItems_ok_iff.2 ?_
        intro x hx
        obtain ⟨y, hy, rfl⟩ := List.mem_map.1 hx
        obtain ⟨s, rfl, hs⟩ := hitems y hy
        exact ⟨s, rfl, hs⟩
      · exact absurd h (by simp)
  | obj kvs =>
      simp only [checkSha256] at h
      split at h
      · next hlen =>
        have hitems := checkHexItems_ok_iff.1 h
        have hperm := sortMembers_perm (sortKeysMembers kvs)
        have hlen' : (sortMembers (sortKeysMembers kvs)).length = 64 := by
          rw [hperm.length_eq, sortKeysMembers_eq, List.length_map, hlen]
        simp only [Json.sortKeys, checkSha256, hlen', if_true]
        refine checkHexItems_ok_iff.2 ?_
        intro x hx
        obtain ⟨kv, hkv, rfl⟩ := List.mem_map.1 hx
        have hmem := hperm.mem_iff.1 hkv
        rw [sortKeysMembers_eq] at hmem
        obtain ⟨kv', hkv', rfl⟩ := List.mem_map.1 hmem
        exact hitems _ (List.mem_map.2 ⟨kv', hkv', rfl⟩)
      · exact absurd h (by simp)

section Written

variable [FloatNum F]

theorem validateRecord_ok_iff {r : QuarantineRecord F} :
    validateRecord r = .ok () ↔
      isSchemaVersion r.schemaVersion = true ∧
      (∃ s, validateQuarantineId r.quarantineId = .ok s) ∧
      checkOriginalPath r.originalPath = .ok () ∧ checkSha256 r.sha256 = .ok () ∧
      checkSizeBytes r.sizeBytes = .ok () ∧ checkStatus r.restorationStatus = .ok () ∧
      checkRules r.triggeredRules = .ok () ∧ checkProcessInfo r.processInfo = .ok () ∧
      (Json.obj r.toDict).encodable false = true := by
  unfold validateRecord requireJsonValue
  cases isSchemaVersion r.schemaVersion with
  | false => simp [throw, throwThe, MonadExceptOf.throw, bind, Except.bind]
  | true =>
      cases validateQuarantineId r.quarantineId <;> cases checkOriginalPath r.originalPath <;>
      cases checkSha256 r.sha256 <;> cases checkSizeBytes r.sizeBytes <;>
      cases checkStatus r.restorationStatus <;> cases checkRules r.triggeredRules <;>
      cases checkProcessInfo r.processInfo <;>
      simp [bind, Except.bind]

/-- The bytes are those `_write_metadata_atomic` writes for the record of `id`. -/
structure Stored (id : PyStr) (r : QuarantineRecord F) (data : Bytes) : Prop where
  wf : r.WF
  valid : validateRecord r = .ok ()
  uuid : isUuid id = true
  id_eq : r.quarantineId = .str id
  encoded : encodeRecord r = .ok data

namespace Stored

variable {id : PyStr} {r : QuarantineRecord F} {data : Bytes}

theorem text (h : Stored id r data) : ∃ text,
    dumpsSorted (.indented 2) true (.obj r.toDict) = some text ∧ encodeUtf8 text = some data := by
  have henc := h.encoded
  unfold encodeRecord at henc
  split at henc
  · exact absurd henc (by simp)
  · next text htext =>
    split at henc
    · exact absurd henc (by simp)
    · next bytes hbytes =>
      cases henc
      exact ⟨text, htext, hbytes⟩

/-- The record that is read back is a record of the same file. -/
theorem canon (h : Stored id r data) : Stored id r.canon data where
  wf := h.wf.canon
  valid := by
    obtain ⟨hschema, -, hpath, hsha, hsize, hstatus, hrules, hprocess, henc⟩ :=
      validateRecord_ok_iff.1 h.valid
    refine validateRecord_ok_iff.2 ⟨?_, ⟨id, ?_⟩, ?_, ?_, ?_, ?_, ?_, ?_, ?_⟩
    · show isSchemaVersion r.schemaVersion.sortKeys = true
      cases hv : r.schemaVersion <;> rw [hv] at hschema <;> exact hschema
    · show validateQuarantineId r.quarantineId.sortKeys = .ok id
      rw [h.id_eq]
      exact validateQuarantineId_of_isUuid h.uuid
    · show checkOriginalPath r.originalPath.sortKeys = .ok ()
      cases hv : r.originalPath <;> rw [hv] at hpath <;> exact hpath
    · exact checkSha256_sortKeys hsha
    · show checkSizeBytes r.sizeBytes.sortKeys = .ok ()
      cases hv : r.sizeBytes <;> rw [hv] at hsize <;> exact hsize
    · show checkStatus r.restorationStatus.sortKeys = .ok ()
      cases hv : r.restorationStatus <;> rw [hv] at hstatus <;> exact hstatus
    · show checkRules r.triggeredRules.sortKeys = .ok ()
      cases hv : r.triggeredRules <;> rw [hv] at hrules <;> exact hrules
    · show checkProcessInfo r.processInfo.sortKeys = .ok ()
      cases hv : r.processInfo <;> rw [hv] at hprocess <;> exact hprocess
    · rw [← encodable_sortKeys, r.sortKeys_canon, encodable_sortKeys]
      exact henc
  uuid := h.uuid
  id_eq := by
    show r.quarantineId.sortKeys = .str id
    rw [h.id_eq]
    rfl
  encoded := by
    have henc := h.encoded
    unfold encodeRecord at henc ⊢
    rwa [dumpsSorted_congr r.sortKeys_canon]

/-- **Round trip of a metadata file.** Loading gives the record that was written, its dictionaries
    in key order. -/
theorem decode (h : Stored id r data) (str : Exc → PyStr) :
    decodeRecord str id data = .ok r.canon := by
  obtain ⟨text, htext, hdata⟩ := h.text
  have hloads : loads text = .ok (Json.obj r.toDict).sortKeys :=
    loads_dumps (sortKeys_wf _ h.wf) htext
  have hcanon := h.canon
  unfold decodeRecord
  simp only [decodeUtf8_encodeUtf8 hdata, hloads, Json.sortKeys, QuarantineRecord.ofData_sorted,
    hcanon.valid, hcanon.id_eq, if_true, bind, Except.bind, pure, Except.pure]

end Stored

end Written

/-! ## Loaded records -/

namespace QuarantineRecord

theorem ofData_wf {data : Mapping F} {r : QuarantineRecord F} (hwf : (Json.obj data).WF)
    (h : ofData data = some r) : r.WF := by
  have hfield : ∀ {k : PyStr} {v : Json F}, lookup k data = some v → v.WF := by
    intro k v hv
    exact wfMembers_iff.1 hwf.2 _ (mem_of_lookup hv)
  have hdefault : ∀ {k : PyStr} {v : Json F}, v.WF → ((lookup k data).getD v).WF := by
    intro k v hv
    cases hk : lookup k data with
    | none => exact hv
    | some w => exact hfield hk
  unfold ofData at h
  split at h
  · iterate 18 (obtain ⟨_, _, h⟩ := Option.bind_eq_some_iff.1 h)
    cases h
    rw [wf_iff]
    intro kv hkv
    simp only [toDict, List.mem_cons, List.not_mem_nil, or_false] at hkv
    rcases hkv with rfl | rfl | rfl | rfl | rfl | rfl | rfl | rfl | rfl | rfl | rfl | rfl | rfl |
      rfl | rfl | rfl | rfl | rfl | rfl | rfl | rfl | rfl | rfl | rfl | rfl | rfl
    all_goals first
      | exact hfield ‹_›
      | exact hdefault trivial
  · exact absurd h (by simp)

end QuarantineRecord

theorem isUuid_of_validate {q : Json F} {id : PyStr} (h : validateQuarantineId q = .ok id) :
    isUuid id = true := by
  unfold validateQuarantineId at h
  split at h
  · split at h
    · next hu =>
      cases h
      exact hu
    · split at h <;> exact absurd h (by simp)
  · exact absurd h (by simp)

/-- What is known of a record that has been loaded. -/
theorem decodeRecord_ok [FloatNum F] {str : Exc → PyStr} {id : PyStr} {data : Bytes}
    {r : QuarantineRecord F} (h : decodeRecord str id data = .ok r) :
    r.WF ∧ validateRecord r = .ok () ∧ r.quarantineId = .str id := by
  unfold decodeRecord at h
  split at h
  · next text htext =>
    split at h
    · exact absurd h (by simp [throw, throwThe, MonadExceptOf.throw])
    · exact absurd h (by simp [throw, throwThe, MonadExceptOf.throw])
    · next members hmembers =>
      split at h
      · next record hrecord =>
        cases hvalid : validateRecord record with
        | error e =>
            rw [hvalid] at h
            exact nomatch h
        | ok u =>
            rw [hvalid] at h
            simp only [bind, Except.bind] at h
            split at h
            · next s hs =>
              split at h
              · next heq =>
                cases h
                exact ⟨QuarantineRecord.ofData_wf (loads_wf hmembers) hrecord, hvalid, heq ▸ hs⟩
              · exact nomatch h
            · exact nomatch h
      · exact nomatch h
    · exact nomatch h
  · exact nomatch h

end Elyra.Quarantine
