import Elyra.Python.JsonNesting
import Elyra.Python.Ordering
import Elyra.Quarantine.Outcome

set_option autoImplicit false

/-! # Listing the quarantine

`list_quarantine` and `get_record` on a metadata directory that does not change: any names, with any
bytes in the files. What `_load_metadata` raises is not always a `QuarantineMetadataError`. The
interpreter's limits on recursion are parameters here (`Nesting`); within them, reading a record is
`loadMetadata` (`loadMetadata_reads`). -/

namespace Elyra.Quarantine

open Elyra.Python Elyra.Posix Elyra.Posix.Program

variable {F : Type}

/-! ## The directory -/

/-- What a name leads to. -/
inductive DirEntry where
  | file (data : Bytes)
  /-- A symbolic link, a directory or a device. -/
  | other
  deriving DecidableEq

abbrev MetadataDir := List (PyStr × DirEntry)

/-- A name that `glob("*.json")` finds. -/
def isJsonName (name : PyStr) : Bool := (py ".json").isSuffixOf name

/-- `Path(name).stem` of such a name; a name that is nothing but the suffix has none. -/
def stem (name : PyStr) : PyStr :=
  if name = py ".json" then name else name.take (name.length - 5)

/-- `sorted(self.metadata_dir.glob("*.json"))`. -/
def jsonNames (dir : MetadataDir) : List PyStr :=
  ((keys dir).filter isJsonName).insertionSort fun a b => keyLe a b = true

/-! ## Reading a record -/

/-- What the interpreter's stack has room for. -/
structure Nesting (F : Type) where
  /-- The containers inside each other that `json.loads` reads. -/
  loads : Nat
  /-- Whether `asdict` gets through a value. -/
  copies : Json F → Bool

/-- What reading a record raises. -/
inductive LoadExc where
  | known (e : Exc)
  /-- `RecursionError`. -/
  | recursion
  deriving DecidableEq

section Reading

variable [FloatNum F]

/-- The checks of `_validate_record` on the fields. -/
def checkFields (r : QuarantineRecord F) : Except Exc Unit := do
  if isSchemaVersion r.schemaVersion = false then
    throw (.error .metadata (py "Unsupported metadata schema: " ++ pyStr r.schemaVersion))
  let _ ← validateQuarantineId r.quarantineId
  checkOriginalPath r.originalPath
  checkSha256 r.sha256
  checkSizeBytes r.sizeBytes
  checkStatus r.restorationStatus
  checkRules r.triggeredRules
  checkProcessInfo r.processInfo

/-- `_validate_record`; `record.to_dict()` copies the fields first. -/
def validateWithin (n : Nesting F) (r : QuarantineRecord F) : Except LoadExc Unit := do
  (checkFields r).mapError .known
  if n.copies (.obj r.toDict) = false then throw .recursion
  (requireJsonValue (.obj r.toDict) (py "metadata")).mapError .known

/-- `record.quarantine_id != safe_id`. -/
def matchId (safeId : PyStr) (r : QuarantineRecord F) : Except Exc (QuarantineRecord F) :=
  match r.quarantineId with
  | .str s =>
      if s = safeId then .ok r
      else .error (.error .metadata (py "Metadata ID does not match its filename"))
  | _ => .error (.error .metadata (py "Metadata ID does not match its filename"))

/-- The record in the text of a metadata file. -/
def recordOf (safeId : PyStr) : Json F → Except Exc (QuarantineRecord F)
  | .obj members =>
      match QuarantineRecord.ofData members with
      | some record => .ok record
      | none => .error (.error .metadata
          (py "Metadata fields are incomplete or unsupported: " ++ safeId))
  | _ => .error (.error .metadata (py "Metadata root must be an object: " ++ safeId))

/-- `QuarantineMetadataError(f"Metadata cannot be read: {safe_id}: {exc}")`. -/
def unreadable (m : Manager) (safeId : PyStr) (e : Exc) : LoadExc :=
  .known (.error .metadata (py "Metadata cannot be read: " ++ safeId ++ py ": " ++ m.str e))

/-- `json.load` of the file, with the exceptions it does not turn into its own. -/
def parseMetadata (m : Manager) (n : Nesting F) (safeId : PyStr) (data : Bytes) :
    Except LoadExc (Json F) :=
  match decodeUtf8 data with
  | none => .error (unreadable m safeId .unicode)
  | some text =>
      match loadsWithin n.loads text with
      | .ok v => .ok v
      | .error .jsonDecodeError => .error (unreadable m safeId .jsonDecode)
      | .error .valueError => .error (.known .value)
      | .error .recursionError => .error .recursion

/-- The end of `_load_metadata`, with the record. -/
def finishLoad (n : Nesting F) (safeId : PyStr) (r : QuarantineRecord F) :
    Except LoadExc (QuarantineRecord F) := do
  validateWithin n r
  (matchId safeId r).mapError .known

/-- What `_load_metadata` makes of the bytes of the file of `safeId`. -/
def readRecord (m : Manager) (n : Nesting F) (safeId : PyStr) (data : Bytes) :
    Except LoadExc (QuarantineRecord F) := do
  let value ← parseMetadata m n safeId data
  let record ← (recordOf safeId value).mapError .known
  finishLoad n safeId record

/-- `_load_metadata` at what it finds under the name. -/
def readEntry (m : Manager) (n : Nesting F) (safeId : PyStr) :
    Option DirEntry → Except LoadExc (QuarantineRecord F)
  | none => .error (.known (.error .metadata (py "Metadata not found: " ++ safeId)))
  | some .other => .error (.known
      (.error .metadata (py "Metadata path is unsafe: " ++ (m.metadataPath safeId).text)))
  | some (.file data) => readRecord m n safeId data

/-- `get_record`. -/
def getRecord (m : Manager) (n : Nesting F) (dir : MetadataDir) (quarantineId : PyStr) :
    Except LoadExc (QuarantineRecord F) := do
  let safeId ← (validateQuarantineId (.str quarantineId : Json F)).mapError .known
  readEntry m n safeId (lookup (metadataName safeId) dir)

end Reading

/-! ## Listing -/

section Listing

variable [ExactFloat F]

/-- The loop of `list_quarantine`: the records, and the texts of the errors. -/
def collect (load : PyStr → Except LoadExc (QuarantineRecord F)) :
    List PyStr → Except LoadExc (List (QuarantineRecord F) × List PyStr)
  | [] => .ok ([], [])
  | name :: rest =>
      match load (stem name) with
      | .ok r => (collect load rest).map fun p => (r :: p.1, p.2)
      | .error (.known (.error .metadata text)) =>
          (collect load rest).map fun p => (p.1, (name ++ py ": " ++ text) :: p.2)
      | .error e => .error e

attribute [grind =] collect

/-- `list_quarantine`. -/
def listQuarantine (m : Manager) (n : Nesting F) (dir : MetadataDir) (strict : Bool) :
    Except LoadExc (List (QuarantineRecord F)) :=
  match collect (getRecord m n dir) (jsonNames dir) with
  | .error e => .error e
  | .ok (records, errors) =>
      if errors ≠ [] ∧ strict = true then
        .error (.known (.error .metadata (List.intercalate (py "; ") errors)))
      else
        match sortedNewest (·.timestamp) records with
        | some sorted => .ok sorted
        | none => .error (.known .type)

end Listing

/-! ## Reading is `_load_metadata` -/

section Refinement

variable [FloatNum F]

theorem validateRecord_eq (r : QuarantineRecord F) : validateRecord r = (do
    checkFields r
    requireJsonValue (.obj r.toDict) (py "metadata")) := by
  unfold validateRecord checkFields
  by_cases h : isSchemaVersion r.schemaVersion = false
  · rw [if_pos h, if_pos h]
    rfl
  · rw [if_neg h, if_neg h]
    simp only [bind_assoc]

/-- With room for what it copies, `_validate_record` is `validateRecord`. -/
theorem validateWithin_eq (n : Nesting F) (r : QuarantineRecord F) :
    validateWithin n r = .error .recursion ∨
      validateWithin n r = (validateRecord r).mapError .known := by
  rw [validateRecord_eq]
  unfold validateWithin
  cases checkFields r with
  | error e => exact .inr rfl
  | ok u =>
      by_cases h : n.copies (.obj r.toDict) = false
      · exact .inl (by rw [if_pos h]; rfl)
      · exact .inr (by rw [if_neg h]; rfl)

theorem finishLoad_eq (n : Nesting F) (safeId : PyStr) (r : QuarantineRecord F) :
    finishLoad n safeId r = .error .recursion ∨
      finishLoad n safeId r = (validateRecord r >>= fun _ => matchId safeId r).mapError LoadExc.known := by
  unfold finishLoad
  rcases validateWithin_eq n r with h | h
  · exact .inl (by rw [h]; rfl)
  · rw [h]
    cases validateRecord r <;> exact .inr rfl

theorem decodeRecord_obj {str : Exc → PyStr} {safeId : PyStr} {data : Bytes} {text : PyStr}
    {members : Mapping F} (htext : decodeUtf8 data = some text)
    (hloads : loads text = .ok (.obj members)) : decodeRecord str safeId data =
      (recordOf safeId (.obj members) >>= fun r => validateRecord r >>= fun _ => matchId safeId r) := by
  unfold decodeRecord recordOf
  rw [htext]
  simp only [hloads]
  cases QuarantineRecord.ofData members with
  | none => rfl
  | some r =>
      change (validateRecord r >>= fun _ => _) = validateRecord r >>= fun _ => _
      unfold matchId
      cases r.quarantineId <;> rfl

/-- With room for the containers, the bytes are read as `decodeRecord` reads them. -/
theorem readRecord_decodeRecord (m : Manager) (n : Nesting F) (safeId : PyStr) (data : Bytes) :
    readRecord m n safeId data = .error .recursion ∨
      readRecord m n safeId data = (decodeRecord m.str safeId data).mapError .known := by
  cases htext : decodeUtf8 data with
  | none =>
      unfold readRecord decodeRecord parseMetadata
      rw [htext]
      exact .inr rfl
  | some text =>
      unfold readRecord parseMetadata
      simp only [htext]
      rcases loadsWithin_roomy (F := F) n.loads text with h | h
      · rw [h]
        exact .inl rfl
      rw [h]
      cases hloads : loads (F := F) text with
      | error e =>
          unfold decodeRecord
          simp only [htext, hloads]
          cases e <;> exact .inr rfl
      | ok v =>
          cases v with
          | obj members =>
              rw [decodeRecord_obj htext hloads]
              change ((recordOf safeId (.obj members)).mapError LoadExc.known >>= finishLoad n safeId) = _ ∨
                ((recordOf safeId (.obj members)).mapError LoadExc.known >>= finishLoad n safeId) = _
              cases recordOf safeId (.obj members) with
              | error e => exact .inr rfl
              | ok r => exact finishLoad_eq n safeId r
          | null | bool | int | float | str | arr =>
              unfold decodeRecord
              simp only [htext, hloads]
              exact .inr rfl

/-- The files show the directory. -/
def Shows (m : Manager) (f : Files Path) (dir : MetadataDir) : Prop :=
  ∀ name, lookup name dir = (f.names ⟨m.metadataDir, name⟩).map fun i =>
    if (f.nodes i).kind = .regular then .file (f.nodes i).bytes else .other

/-- `_load_metadata` without a failure changes nothing and answers as `getRecord` does, given the
    room. -/
theorem loadMetadata_reads {m : Manager} {n : Nesting F} {dir : MetadataDir} {f f' : Files Path}
    {uuid id : PyStr} {allowed : Call F → Exc → Prop} {x : Except Exc (QuarantineRecord F)}
    (hshows : Shows m f dir)
    (hends : Ends (machine uuid allowed) .never (loadMetadata m (.str id)) f x f') :
    f' = f ∧ (getRecord m n dir id = .error .recursion ∨
      getRecord m n dir id = x.mapError LoadExc.known) := by
  have hI : True := trivial
  have hwp : wp (machine uuid allowed) (fun _ => True) (loadMetadata m (.str id)) .never
      (fun _ x f' => f' = f ∧ (getRecord m n dir id = .error .recursion ∨
        getRecord m n dir id = x.mapError LoadExc.known)) f := by
    unfold getRecord
    refine wp_bind (wp_lift hI ?_)
    cases hid : validateQuarantineId (.str id : Json F) with
    | error e => exact ⟨rfl, .inr rfl⟩
    | ok safeId =>
    have hget : (do
        let safeId ← (Except.ok safeId : Except Exc PyStr).mapError LoadExc.known
        readEntry m n safeId (lookup (metadataName safeId) dir)) =
        readEntry m n safeId (lookup (metadataName safeId) dir) := rfl
    rw [hget, hshows]
    refine wp_bind (wp_lexists hI ?_ nofun)
    have hname : f.names ⟨m.metadataDir, metadataName safeId⟩ = f.names (m.metadataPath safeId) := rfl
    rw [hname]
    cases hj : f.names (m.metadataPath safeId) with
    | none => exact wp_bind (wp_check hI (fun h => absurd h (by simp)) fun _ => ⟨rfl, .inr rfl⟩)
    | some j =>
    refine wp_bind (wp_check hI (fun _ => ?_) fun h => absurd rfl h)
    refine wp_bind (wp_lstat hj hI ?_ nofun)
    refine wp_bind (wp_check hI (fun hk => ?_) fun hk => ⟨rfl, .inr ?_⟩)
    · have hreg : (f.nodes j).kind = .regular := hk
      rw [Option.map_some, if_pos hreg]
      have hread : wp (machine uuid allowed) (fun _ => True) (do
          let fd : Nat ← sys (.openFile (m.metadataPath safeId))
          sys (.readAll fd) : Prog F Bytes) .never
          (fun b' x f' => b' = .never ∧ x = .ok (f.nodes j).bytes ∧ f' = f) f := by
        refine wp_bind (wp_sys hI ?_ nofun)
        rintro r f₁ ⟨rfl, hr⟩
        rw [hj] at hr
        simp only [hreg] at hr
        rw [if_neg (by simp)] at hr
        subst hr
        exact ⟨hI, wp_readAll (I := fun _ => True) hI ⟨rfl, rfl, rfl⟩ nofun⟩
      refine wp_bind (wp_orElse (wp_mono ?_ hread))
      rintro b' x f₁ ⟨rfl, rfl, rfl⟩
      exact wp_lift hI ⟨rfl, readRecord_decodeRecord m n safeId (f₁.nodes j).bytes⟩
    · have hreg : (f.nodes j).kind ≠ .regular := hk
      rw [Option.map_some, if_neg hreg]
      rfl
  obtain ⟨b', h⟩ := wp_ends hwp hends
  exact h

end Refinement

/-! ## The records that are not passed over -/

section Trips

variable [FloatNum F]

/-- A `QuarantineMetadataError`. -/
def IsMetadataError (e : LoadExc) : Prop := ∃ text, e = .known (.error .metadata text)

/-- The loop of `list_quarantine` goes on. -/
def Tolerable {α : Type} (x : Except LoadExc α) : Prop := ∀ e, x = .error e → IsMetadataError e

/-- Not a text, a list of 64 items or a dictionary of 64: `len` or the test of an item raises
    `TypeError`. -/
def ShaTrips : Json F → Prop
  | .str _ => False
  | .obj _ => False
  | .arr xs => xs.length = 64 ∧ ∃ before x after, xs = before ++ x :: after ∧
      checkHexItems before = .ok () ∧ ∀ s, x ≠ .str s
  | _ => True

/-- Not hashable, so that `in {..}` raises `TypeError`. -/
def Unhashable : Json F → Prop
  | .arr _ => True
  | .obj _ => True
  | _ => False

/-- One of the checks of the fields raises `TypeError`, and those before it pass. -/
inductive FieldTrips (r : QuarantineRecord F) : Prop
  | path (hpath : ∀ s, r.originalPath ≠ .str s)
  | sha256 (hpath : checkOriginalPath r.originalPath = .ok ()) (hsha : ShaTrips r.sha256)
  | status (hpath : checkOriginalPath r.originalPath = .ok ())
      (hsha : checkSha256 r.sha256 = .ok ()) (hsize : checkSizeBytes r.sizeBytes = .ok ())
      (hstatus : Unhashable r.restorationStatus)

/-- `_validate_record` raises something else than a `QuarantineMetadataError`. -/
inductive Stumbles (n : Nesting F) (r : QuarantineRecord F) : Prop
  | field {id : PyStr} (hschema : isSchemaVersion r.schemaVersion = true)
      (hid : validateQuarantineId r.quarantineId = .ok id) (hfield : FieldTrips r)
  | copy (hfields : checkFields r = .ok ()) (hcopy : n.copies (.obj r.toDict) = false)
  /-- A number that is not finite: a plain `QuarantineError`. -/
  | encode (hfields : checkFields r = .ok ()) (hcopy : n.copies (.obj r.toDict) = true)
      (hencode : (Json.obj r.toDict).encodable false = false)

/-- Bytes on which `_load_metadata` raises something else: an integer beyond the digit limit or
    containers beyond the room in a text of UTF-8, or a record that stumbles. -/
inductive Trips (n : Nesting F) (data : Bytes) : Prop
  | text {text : PyStr} {e : ScanError} (hdata : decodeUtf8 data = some text)
      (he : e ≠ .jsonDecodeError) (hoverruns : Overruns F n.loads text e)
  | record {text : PyStr} {members : Mapping F} {r : QuarantineRecord F}
      (hdata : decodeUtf8 data = some text) (hloads : loads text = .ok (.obj members))
      (hr : QuarantineRecord.ofData members = some r) (hstumbles : Stumbles n r)

omit [FloatNum F] in
theorem checkHexItems_type {xs : List (Json F)} : checkHexItems xs = .error .type ↔
    ∃ before x after, xs = before ++ x :: after ∧ checkHexItems before = .ok () ∧ ∀ s, x ≠ .str s := by
  induction xs with
  | nil => simp [checkHexItems]
  | cons x xs ih =>
      cases x with
      | str s =>
          by_cases hs : (py "0123456789abcdef").tails.any (s.isPrefixOf ·) = true
          · rw [checkHexItems, if_pos hs, ih]
            constructor
            · rintro ⟨before, y, after, rfl, hbefore, hy⟩
              refine ⟨.str s :: before, y, after, rfl, ?_, hy⟩
              rw [checkHexItems, if_pos hs, hbefore]
            · rintro ⟨before, y, after, heq, hbefore, hy⟩
              cases before with
              | nil => exact absurd (List.cons.inj heq).1.symm (hy s)
              | cons z before =>
                  obtain ⟨rfl, rfl⟩ := List.cons.inj heq
                  rw [checkHexItems, if_pos hs] at hbefore
                  exact ⟨before, y, after, rfl, hbefore, hy⟩
          · rw [checkHexItems, if_neg hs]
            refine iff_of_false (by simp) ?_
            rintro ⟨before, y, after, heq, hbefore, hy⟩
            cases before with
            | nil => exact hy s (List.cons.inj heq).1.symm
            | cons z before =>
                obtain ⟨rfl, rfl⟩ := List.cons.inj heq
                rw [checkHexItems, if_neg hs] at hbefore
                exact absurd hbefore (by simp)
      | null | bool | int | float | arr | obj =>
          refine iff_of_true rfl ⟨[], _, xs, rfl, rfl, fun s => by simp⟩

omit [FloatNum F] in
theorem checkHexItems_error {xs : List (Json F)} {e : Exc} (h : checkHexItems xs = .error e) :
    e = .type ∨ ∃ text, e = .error .metadata text := by
  induction xs with
  | nil => exact nomatch h
  | cons x xs ih =>
      cases x with
      | str s =>
          rw [checkHexItems] at h
          split at h
          · exact ih h
          · exact .inr ⟨_, (Except.error.inj h).symm⟩
      | null | bool | int | float | arr | obj => exact .inl (Except.error.inj h).symm

omit [FloatNum F] in
theorem checkHexItems_texts (kvs : Mapping F) :
    checkHexItems (kvs.map fun kv => (.str kv.1 : Json F)) ≠ .error .type := by
  rw [Ne, checkHexItems_type]
  rintro ⟨before, x, after, heq, -, hx⟩
  have hmem : x ∈ kvs.map fun kv => (.str kv.1 : Json F) := by
    rw [heq]
    exact List.mem_append_right _ (List.mem_cons_self ..)
  obtain ⟨kv, -, rfl⟩ := List.mem_map.1 hmem
  exact hx kv.1 rfl

omit [FloatNum F] in
theorem checkSha256_error {v : Json F} {e : Exc} (h : checkSha256 v = .error e) :
    (∃ text, e = .error .metadata text) ∨ e = .type ∧ ShaTrips v := by
  cases v with
  | null | bool | int | float => exact .inr ⟨(Except.error.inj h).symm, trivial⟩
  | str s =>
      rw [checkSha256] at h
      split at h
      · cases h
      · exact .inl ⟨_, (Except.error.inj h).symm⟩
  | arr xs =>
      rw [checkSha256] at h
      split at h
      · next hlen =>
        rcases checkHexItems_error h with rfl | htext
        · exact .inr ⟨rfl, hlen, checkHexItems_type.1 h⟩
        · exact .inl htext
      · exact .inl ⟨_, (Except.error.inj h).symm⟩
  | obj kvs =>
      rw [checkSha256] at h
      split at h
      · rcases checkHexItems_error h with rfl | htext
        · exact absurd h (checkHexItems_texts kvs)
        · exact .inl htext
      · exact .inl ⟨_, (Except.error.inj h).symm⟩

omit [FloatNum F] in
theorem ShaTrips.raises {v : Json F} (h : ShaTrips v) : checkSha256 v = .error .type := by
  cases v with
  | null | bool | int | float => rfl
  | str s => exact absurd h (by simp [ShaTrips])
  | obj kvs => exact absurd h (by simp [ShaTrips])
  | arr xs =>
      rw [checkSha256, if_pos h.1]
      exact checkHexItems_type.2 h.2

omit [FloatNum F] in
theorem checkStatus_error {v : Json F} {e : Exc} (h : checkStatus v = .error e) :
    (∃ text, e = .error .metadata text) ∨ e = .type ∧ Unhashable v := by
  cases v with
  | arr xs => exact .inr ⟨(Except.error.inj h).symm, trivial⟩
  | obj kvs => exact .inr ⟨(Except.error.inj h).symm, trivial⟩
  | null | bool | int | float => exact .inl ⟨_, (Except.error.inj h).symm⟩
  | str s =>
      rw [checkStatus] at h
      split at h
      · cases h
      · exact .inl ⟨_, (Except.error.inj h).symm⟩

omit [FloatNum F] in
theorem checkOriginalPath_error {v : Json F} {e : Exc} (h : checkOriginalPath v = .error e) :
    (∃ text, e = .error .metadata text) ∨ e = .type ∧ ∀ s, v ≠ .str s := by
  cases v with
  | str s =>
      rw [checkOriginalPath] at h
      split at h
      · exact nomatch h
      · exact .inl ⟨_, (Except.error.inj h).symm⟩
  | null | bool | int | float | arr | obj => exact .inr ⟨(Except.error.inj h).symm, fun s => by simp⟩

omit [FloatNum F] in
theorem validateQuarantineId_error {v : Json F} {e : Exc} (h : validateQuarantineId v = .error e) :
    ∃ text, e = .error .metadata text := by
  unfold validateQuarantineId at h
  split at h
  · split at h
    · exact nomatch h
    · split at h <;> exact ⟨_, (Except.error.inj h).symm⟩
  · exact ⟨_, (Except.error.inj h).symm⟩

omit [FloatNum F] in
theorem checkSizeBytes_error {v : Json F} {e : Exc} (h : checkSizeBytes v = .error e) :
    ∃ text, e = .error .metadata text := by
  unfold checkSizeBytes at h
  split at h
  · split at h
    · exact nomatch h
    · exact ⟨_, (Except.error.inj h).symm⟩
  · exact nomatch h
  · exact ⟨_, (Except.error.inj h).symm⟩

omit [FloatNum F] in
theorem checkRules_error {v : Json F} {e : Exc} (h : checkRules v = .error e) :
    ∃ text, e = .error .metadata text := by
  unfold checkRules at h
  split at h
  · exact nomatch h
  · exact ⟨_, (Except.error.inj h).symm⟩

omit [FloatNum F] in
theorem checkProcessInfo_error {v : Json F} {e : Exc} (h : checkProcessInfo v = .error e) :
    ∃ text, e = .error .metadata text := by
  unfold checkProcessInfo at h
  split at h
  · exact nomatch h
  · exact ⟨_, (Except.error.inj h).symm⟩

/-- What the checks of the fields raise. -/
theorem checkFields_error {r : QuarantineRecord F} {e : Exc} (h : checkFields r = .error e) :
    (∃ text, e = .error .metadata text) ∨ e = .type ∧ isSchemaVersion r.schemaVersion = true ∧
      (∃ id, validateQuarantineId r.quarantineId = .ok id) ∧ FieldTrips r := by
  unfold checkFields at h
  by_cases hschema : isSchemaVersion r.schemaVersion = false
  · rw [if_pos hschema] at h
    exact .inl ⟨_, (Except.error.inj h).symm⟩
  rw [if_neg hschema] at h
  have hschema' : isSchemaVersion r.schemaVersion = true := by simpa using hschema
  rcases bind_error.1 h with h | ⟨id, hid, h⟩
  · exact .inl (validateQuarantineId_error h)
  rcases bind_error.1 h with h | ⟨⟨⟩, hpath, h⟩
  · refine (checkOriginalPath_error h).imp_right fun ⟨he, hp⟩ => ⟨he, hschema', ⟨id, hid⟩, .path hp⟩
  rcases bind_error.1 h with h | ⟨⟨⟩, hsha, h⟩
  · exact (checkSha256_error h).imp_right fun ⟨he, hs⟩ => ⟨he, hschema', ⟨id, hid⟩, .sha256 hpath hs⟩
  rcases bind_error.1 h with h | ⟨⟨⟩, hsize, h⟩
  · exact .inl (checkSizeBytes_error h)
  rcases bind_error.1 h with h | ⟨⟨⟩, -, h⟩
  · exact (checkStatus_error h).imp_right fun ⟨he, hs⟩ =>
      ⟨he, hschema', ⟨id, hid⟩, .status hpath hsha hsize hs⟩
  rcases bind_error.1 h with h | ⟨⟨⟩, -, h⟩
  · exact .inl (checkRules_error h)
  · exact .inl (checkProcessInfo_error h)

theorem FieldTrips.raises {r : QuarantineRecord F} {id : PyStr} (h : FieldTrips r)
    (hschema : isSchemaVersion r.schemaVersion = true)
    (hid : validateQuarantineId r.quarantineId = .ok id) : checkFields r = .error .type := by
  unfold checkFields
  rw [if_neg (by simp [hschema]), hid]
  cases h with
  | path hpath =>
      have hraises : checkOriginalPath r.originalPath = .error .type := by
        revert hpath
        cases r.originalPath with
        | str s => exact fun h => absurd rfl (h s)
        | null | bool | int | float | arr | obj => exact fun _ => rfl
      rw [hraises]
      rfl
  | sha256 hpath hsha =>
      rw [hpath, hsha.raises]
      rfl
  | status hpath hsha hsize hstatus =>
      have hraises : checkStatus r.restorationStatus = .error .type := by
        revert hstatus
        cases r.restorationStatus with
        | arr | obj => exact fun _ => rfl
        | null | bool | int | float | str => exact fun h => absurd h (by simp [Unhashable])
      rw [hpath, hsha, hsize, hraises]
      rfl

/-- **What `_validate_record` raises besides `QuarantineMetadataError`.** -/
theorem validateWithin_tolerable_iff {n : Nesting F} {r : QuarantineRecord F} :
    Tolerable (validateWithin n r) ↔ ¬ Stumbles n r := by
  unfold validateWithin
  cases hfields : checkFields r with
  | error e =>
      rcases checkFields_error hfields with ⟨text, rfl⟩ | ⟨rfl, hschema, ⟨id, hid⟩, htrips⟩
      · refine iff_of_true (fun e he => ⟨text, (Except.error.inj he).symm⟩) fun h => ?_
        cases h with
        | field hschema hid htrips =>
            exact absurd (hfields.symm.trans (htrips.raises hschema hid)) (by simp)
        | copy h _ => exact nomatch hfields.symm.trans h
        | encode h _ _ => exact nomatch hfields.symm.trans h
      · refine iff_of_false (fun h => ?_) (not_not.2 (.field hschema hid htrips))
        obtain ⟨text, h⟩ := h _ rfl
        exact absurd h (by simp)
  | ok u =>
      have hfield : ¬ ∃ id, isSchemaVersion r.schemaVersion = true ∧
          validateQuarantineId r.quarantineId = .ok id ∧ FieldTrips r := by
        rintro ⟨id, hschema, hid, htrips⟩
        exact nomatch hfields.symm.trans (htrips.raises hschema hid)
      by_cases hcopy : n.copies (.obj r.toDict) = false
      · refine iff_of_false (fun h => ?_) (not_not.2 (.copy hfields hcopy))
        rw [if_pos hcopy] at h
        obtain ⟨text, h⟩ := h _ rfl
        exact absurd h (by simp)
      · have hcopy' : n.copies (.obj r.toDict) = true := by simpa using hcopy
        rw [if_neg hcopy]
        cases hencode : (Json.obj r.toDict).encodable false with
        | true =>
            refine iff_of_true (fun e he => ?_) fun h => ?_
            · unfold requireJsonValue at he
              rw [hencode] at he
              exact nomatch he
            · cases h with
              | field hschema hid htrips => exact hfield ⟨_, hschema, hid, htrips⟩
              | copy _ h => exact absurd h hcopy
              | encode _ _ h => exact absurd (hencode.symm.trans h) (by simp)
        | false =>
            refine iff_of_false (fun h => ?_) (not_not.2 (.encode hfields hcopy' hencode))
            unfold requireJsonValue at h
            rw [hencode] at h
            obtain ⟨text, h⟩ := h _ rfl
            exact absurd h (by simp)

theorem tolerable_ok {α : Type} (a : α) : Tolerable (.ok a : Except LoadExc α) := fun _ h => nomatch h

theorem tolerable_error {α : Type} {e : LoadExc} :
    Tolerable (.error e : Except LoadExc α) ↔ IsMetadataError e := by
  constructor
  · exact fun h => h e rfl
  · rintro h e' he
    obtain rfl := Except.error.inj he
    exact h

theorem finishLoad_tolerable_iff {n : Nesting F} {safeId : PyStr} {r : QuarantineRecord F} :
    Tolerable (finishLoad n safeId r) ↔ ¬ Stumbles n r := by
  rw [← validateWithin_tolerable_iff]
  unfold finishLoad
  cases validateWithin n r with
  | error e => exact tolerable_error.trans tolerable_error.symm
  | ok u =>
      refine iff_of_true ?_ (tolerable_ok u)
      change Tolerable ((matchId safeId r).mapError LoadExc.known)
      unfold matchId
      split
      · split
        · exact tolerable_ok _
        · exact tolerable_error.2 ⟨_, rfl⟩
      · exact tolerable_error.2 ⟨_, rfl⟩

/-- **The bytes on which `_load_metadata` raises something else.** -/
theorem readRecord_tolerable_iff {m : Manager} {n : Nesting F} {safeId : PyStr} {data : Bytes} :
    Tolerable (readRecord m n safeId data : Except LoadExc (QuarantineRecord F)) ↔ ¬ Trips n data := by
  unfold readRecord parseMetadata
  cases hdata : decodeUtf8 data with
  | none =>
      refine iff_of_true (tolerable_error.2 ⟨_, rfl⟩) ?_
      rintro (⟨h, _, _⟩ | ⟨h, _, _, _⟩) <;> exact nomatch hdata.symm.trans h
  | some text =>
      have hrecord : ∀ {v : Json F}, loadsWithin n.loads text = .ok v → (Trips n data ↔
          ∃ members r, v = .obj members ∧ QuarantineRecord.ofData members = some r ∧ Stumbles n r) := by
        intro v hv
        have hloads := (loadsWithin_roomy n.loads text).ok hv
        constructor
        · rintro (⟨hdata', he, hover⟩ | ⟨hdata', hloads', hr, hs⟩)
          · obtain rfl := Option.some.inj (hdata.symm.trans hdata')
            exact nomatch hv.symm.trans ((loadsWithin_error_iff he).2 hover)
          · obtain rfl := Option.some.inj (hdata.symm.trans hdata')
            obtain rfl := Except.ok.inj (hloads.symm.trans hloads')
            exact ⟨_, _, rfl, hr, hs⟩
        · rintro ⟨members, r, rfl, hr, hs⟩
          exact .record hdata hloads hr hs
      dsimp only
      cases hv : loadsWithin (F := F) n.loads text with
      | error e =>
          cases e with
          | jsonDecodeError =>
              refine iff_of_true (tolerable_error.2 ⟨_, rfl⟩) ?_
              rintro (⟨hdata', he, hover⟩ | ⟨hdata', hloads, hr, hs⟩)
              · obtain rfl := Option.some.inj (hdata.symm.trans hdata')
                have herror := hv.symm.trans ((loadsWithin_error_iff he).2 hover)
                exact he (Except.error.inj herror).symm
              · obtain rfl := Option.some.inj (hdata.symm.trans hdata')
                rcases loadsWithin_roomy (F := F) n.loads text with h | h
                · exact nomatch hv.symm.trans h
                · rw [hloads] at h
                  exact nomatch hv.symm.trans h
          | valueError =>
              have htrips : Trips n data :=
                .text (e := .valueError) hdata (by simp) ((loadsWithin_error_iff (by simp)).1 hv)
              refine iff_of_false (fun h => ?_) (not_not.2 htrips)
              obtain ⟨text, h⟩ := tolerable_error.1 h
              exact nomatch h
          | recursionError =>
              have htrips : Trips n data :=
                .text (e := .recursionError) hdata (by simp) ((loadsWithin_error_iff (by simp)).1 hv)
              refine iff_of_false (fun h => ?_) (not_not.2 htrips)
              obtain ⟨text, h⟩ := tolerable_error.1 h
              exact nomatch h
      | ok v =>
          rw [hrecord hv]
          change Tolerable ((recordOf safeId v).mapError LoadExc.known >>= finishLoad n safeId) ↔ _
          cases v with
          | null | bool | int | float | str | arr =>
              exact iff_of_true (tolerable_error.2 ⟨_, rfl⟩) fun ⟨_, _, h, _⟩ => nomatch h
          | obj members =>
              rw [recordOf]
              cases hr : QuarantineRecord.ofData members with
              | none =>
                  refine iff_of_true (tolerable_error.2 ⟨_, rfl⟩) ?_
                  rintro ⟨_, r, ⟨⟩, h, _⟩
                  exact nomatch hr.symm.trans h
              | some r =>
                  refine finishLoad_tolerable_iff.trans (not_congr ?_)
                  constructor
                  · exact fun h => ⟨members, r, rfl, hr, h⟩
                  · rintro ⟨_, r', ⟨⟩, h, hs⟩
                    obtain rfl := Option.some.inj (hr.symm.trans h)
                    exact hs

/-- The entry that a name of the listing leads to. -/
def Stops (n : Nesting F) (dir : MetadataDir) (name : PyStr) : Prop :=
  ∃ id data, validateQuarantineId (.str (stem name) : Json F) = .ok id ∧
    lookup (metadataName id) dir = some (.file data) ∧ Trips n data

theorem getRecord_tolerable_iff {m : Manager} {n : Nesting F} {dir : MetadataDir} {name : PyStr} :
    Tolerable (getRecord m n dir (stem name) : Except LoadExc (QuarantineRecord F)) ↔
      ¬ Stops n dir name := by
  unfold getRecord Stops
  cases hid : validateQuarantineId (.str (stem name) : Json F) with
  | error e =>
      obtain ⟨text, rfl⟩ := validateQuarantineId_error hid
      exact iff_of_true (tolerable_error.2 ⟨_, rfl⟩) fun ⟨_, _, h, _⟩ => nomatch h
  | ok id =>
      change Tolerable (readEntry m n id (lookup (metadataName id) dir)) ↔ _
      cases hentry : lookup (metadataName id) dir with
      | none =>
          refine iff_of_true (tolerable_error.2 ⟨_, rfl⟩) ?_
          rintro ⟨_, data, ⟨⟩, h, _⟩
          exact nomatch hentry.symm.trans h
      | some entry =>
          cases entry with
          | other =>
              refine iff_of_true (tolerable_error.2 ⟨_, rfl⟩) ?_
              rintro ⟨_, data, ⟨⟩, h, _⟩
              exact nomatch hentry.symm.trans h
          | file data =>
              refine readRecord_tolerable_iff.trans (not_congr ?_)
              constructor
              · exact fun h => ⟨id, data, rfl, hentry, h⟩
              · rintro ⟨_, data', ⟨⟩, h, htrips⟩
                cases hentry.symm.trans h
                exact htrips

end Trips

/-! ## Tolerance -/

section Tolerance

variable {load : PyStr → Except LoadExc (QuarantineRecord F)}

theorem collect_ok_iff (load : PyStr → Except LoadExc (QuarantineRecord F)) (names : List PyStr) :
    (∃ p, collect load names = .ok p) ↔ ∀ name ∈ names, Tolerable (load (stem name)) := by
  induction names with
  | nil => exact iff_of_true ⟨_, rfl⟩ nofun
  | cons name rest ih =>
      rw [collect, List.forall_mem_cons, ← ih]
      split
      · next r hr =>
        rw [hr]
        constructor
        · rintro ⟨p, h⟩
          obtain ⟨q, hq, -⟩ := map_eq_ok h
          exact ⟨tolerable_ok r, q, hq⟩
        · rintro ⟨-, q, hq⟩
          rw [hq]
          exact ⟨_, rfl⟩
      · next text htext =>
        rw [htext]
        constructor
        · rintro ⟨p, h⟩
          obtain ⟨q, hq, -⟩ := map_eq_ok h
          exact ⟨tolerable_error.2 ⟨text, rfl⟩, q, hq⟩
        · rintro ⟨-, q, hq⟩
          rw [hq]
          exact ⟨_, rfl⟩
      · next e hne he =>
        rw [he]
        refine iff_of_false (fun ⟨_, h⟩ => nomatch h) fun h => ?_
        obtain ⟨text, htext⟩ := tolerable_error.1 h.1
        exact hne text htext

/-- What the loop has collected. -/
theorem collect_ok {names : List PyStr} {records : List (QuarantineRecord F)} {errors : List PyStr}
    (h : collect load names = .ok (records, errors)) :
    records = names.filterMap (fun name => (load (stem name)).toOption) ∧
      (errors = [] ↔ ∀ name ∈ names, ∃ r, load (stem name) = .ok r) := by
  induction names generalizing records errors with
  | nil =>
      cases h
      exact ⟨rfl, iff_of_true rfl nofun⟩
  | cons name rest ih =>
      rw [collect] at h
      split at h
      · next r hr =>
        obtain ⟨⟨rs, es⟩, hrest, heq⟩ := map_eq_ok h
        cases heq
        obtain ⟨rfl, herrors⟩ := ih hrest
        refine ⟨?_, ?_⟩
        · rw [List.filterMap_cons, hr]
          rfl
        · rw [herrors, List.forall_mem_cons]
          exact (and_iff_right ⟨r, hr⟩).symm
      · next text htext =>
        obtain ⟨⟨rs, es⟩, hrest, heq⟩ := map_eq_ok h
        cases heq
        obtain ⟨rfl, herrors⟩ := ih hrest
        refine ⟨?_, ?_⟩
        · rw [List.filterMap_cons, htext]
          rfl
        · rw [List.forall_mem_cons]
          refine iff_of_false (by simp) fun hall => ?_
          obtain ⟨r, hr⟩ := hall.1
          exact nomatch htext.symm.trans hr
      · exact nomatch h

section Main

variable [ExactFloat F]

/-- The records `get_record` accepts for the ids formed by the names. -/
def accepted (m : Manager) (n : Nesting F) (dir : MetadataDir) : List (QuarantineRecord F) :=
  (jsonNames dir).filterMap fun name => (getRecord m n dir (stem name)).toOption

/-- The listing of the directory is tolerant. -/
structure Tolerant (m : Manager) (n : Nesting F) (dir : MetadataDir) : Prop where
  lenient : ∃ rs, listQuarantine m n dir false = .ok rs ∧ rs.Perm (accepted m n dir) ∧
    rs.Pairwise (NoOlder (·.timestamp))
  strict_valid : (∀ name ∈ jsonNames dir, ∃ r, getRecord m n dir (stem name) = .ok r) →
    listQuarantine m n dir true = listQuarantine m n dir false
  strict_invalid : ¬ (∀ name ∈ jsonNames dir, ∃ r, getRecord m n dir (stem name) = .ok r) →
    ∃ text, listQuarantine m n dir true = .error (.known (.error .metadata text))

/-- **The listing is tolerant of a directory if and only if no file that it comes to makes
    `_load_metadata` raise something else than a `QuarantineMetadataError`, and the timestamps of the
    accepted records have an order.** -/
theorem list_quarantine_tolerant_iff (m : Manager) (n : Nesting F) (dir : MetadataDir) :
    Tolerant m n dir ↔ (∀ name ∈ jsonNames dir, ¬ Stops n dir name) ∧
      (accepted m n dir).Pairwise (Comparable (·.timestamp)) := by
  have hcollect := collect_ok_iff (getRecord m n dir) (jsonNames dir)
  simp only [getRecord_tolerable_iff] at hcollect
  rw [← hcollect]
  constructor
  · rintro ⟨⟨rs, hrs, -, -⟩, -, -⟩
    unfold listQuarantine at hrs
    cases hp : collect (getRecord m n dir) (jsonNames dir) with
    | error e =>
        rw [hp] at hrs
        exact nomatch hrs
    | ok p =>
        obtain ⟨records, errors⟩ := p
        rw [hp] at hrs
        obtain ⟨rfl, -⟩ := collect_ok hp
        refine ⟨⟨_, rfl⟩, ?_⟩
        simp only [Bool.false_eq_true, and_false, if_false, sortedNewest] at hrs
        by_cases hpair : (accepted m n dir).Pairwise (Comparable (·.timestamp))
        · exact hpair
        · unfold accepted at hpair
          rw [if_neg hpair] at hrs
          exact nomatch hrs
  · rintro ⟨⟨⟨records, errors⟩, hp⟩, hpair⟩
    obtain ⟨hrecords, herrors⟩ := collect_ok hp
    change records = accepted m n dir at hrecords
    have hsorted : ∃ sorted, sortedNewest (·.timestamp) records = some sorted := by
      unfold sortedNewest
      rw [hrecords, if_pos hpair]
      exact ⟨_, rfl⟩
    obtain ⟨sorted, hsorted⟩ := hsorted
    have hlist : ∀ strict, listQuarantine m n dir strict =
        if errors ≠ [] ∧ strict = true then
          .error (.known (.error .metadata (List.intercalate (py "; ") errors)))
        else .ok sorted := by
      intro strict
      unfold listQuarantine
      rw [hp]
      simp only [hsorted]
    refine ⟨⟨sorted, ?_, ?_⟩, fun hall => ?_, fun hsome => ?_⟩
    · rw [hlist, if_neg (by simp)]
    · obtain ⟨hperm, hnewest⟩ := sortedNewest_some hsorted
      exact ⟨hrecords ▸ hperm, hnewest⟩
    · rw [hlist, hlist, if_neg (by simp [herrors.2 hall]), if_neg (by simp)]
    · rw [hlist, if_pos ⟨fun h => hsome (herrors.1 h), rfl⟩]
      exact ⟨_, rfl⟩

end Main

/-! ### A record without a path -/

/-- A metadata file whose `original_path` is `null`. -/
def pathlessRecord : QuarantineRecord SampleFloat where
  schemaVersion := .int 1
  quarantineId := .str (py "00000000-0000-4000-8000-000000000001")
  originalPath := .null
  sha256 := .str (List.replicate 64 48)
  sizeBytes := .int 3
  fileType := .str (py "application/x-elf")
  timestamp := .int 0
  timestampUtc := .null
  reason := .str (py "test")
  relatedPid := .null
  processInfo := .obj []
  triggeredRules := .arr []
  originalMode := .int 420
  originalUid := .int 0
  originalGid := .int 0
  sourceDevice := .int 1
  sourceInode := .int 2
  sourceLinkCount := .int 1

def pathlessDir : MetadataDir :=
  [(py "00000000-0000-4000-8000-000000000001.json",
    .file ((encodeRecord pathlessRecord).toOption.getD []))]

theorem pathless_stops_listing : ¬ ∀ (m : Manager) (n : Nesting SampleFloat) (dir : MetadataDir),
    Tolerant m n dir := by
  intro h
  have hraises : ((listQuarantine sampleManager ⟨100, fun _ => true⟩ pathlessDir false).toOption :
      Option (List (QuarantineRecord SampleFloat))).isSome = false := by decide +kernel
  obtain ⟨rs, hrs, -⟩ := (h sampleManager ⟨100, fun _ => true⟩ pathlessDir).lenient
  rw [hrs] at hraises
  exact absurd hraises (by simp [Except.toOption])

end Tolerance

end Elyra.Quarantine
