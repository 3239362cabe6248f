import Elyra.Audit.Directory

set_option autoImplicit false
set_option linter.unusedSectionVars false

/-! # The audit logger

`AuditLogger`: opening with repair, verification and the two corruption policies, the tail state,
rotation with retention, and the append. Every operation runs under the lock, so it is a function of
the directory. What an append does to the files is a list of atomic effects (`planAppend`): the call
that succeeds applies all of them, a crash or an I/O error stops after some of them, and a write may
have put any prefix of its bytes (`Cut`). Permission bits and `fsync` have no effect on the bytes
and are left out. `verifyDirectory` and `initLogger` list the directory first, which may raise; the
other functions are what the calls do behind a listing that does not. -/

namespace Elyra.Audit

open Elyra.Python

variable {F : Type}

/-! ## Configuration -/

structure Config where
  fileName : PyStr
  maxBytes : Int
  backupCount : Int
  maxRecordBytes : Int
  /-- `corruption_policy == "quarantine"`; the other policy is `"raise"`. -/
  quarantineCorrupt : Bool
  repairTrailingPartial : Bool

/-- The checks of `__init__`. -/
def Config.valid (c : Config) : Bool :=
  decide (512 ≤ c.maxBytes) && decide (0 ≤ c.backupCount) && decide (256 ≤ c.maxRecordBytes) &&
    c.fileName != [] && c.fileName != py "." && !c.fileName.contains 47

/-- The exceptions of the logger. -/
inductive Raised where
  | python (x : PyExc)
  | integrityError
  | securityError
  | osError
  deriving DecidableEq, Repr

structure Logger where
  config : Config
  lastHash : PyStr := zeroHash
  lastSequence : Int := 0
  repairedPartial : Bool := false
  recoveryArtifact : Option PyStr := none

/-! ## The tail -/

/-- How many bytes `_tail_state_locked` reads from the end of a segment. -/
def tailWindow : Nat := 1024 * 1024

/-- `handle.seek(max(0, size - n))`, then `handle.read()`: the last `n` bytes. -/
def lastBytes (n : Nat) (data : Bytes) : Bytes := (data.reverse.take n).reverse

/-- `[line for line in data.splitlines() if line.strip()]`. -/
def recordLines (data : Bytes) : List Bytes := (splitlines data).filter (fun line => !blank line)

/-- The lines it looks at. -/
def tailLines (data : Bytes) : List Bytes := recordLines (lastBytes tailWindow data)

section Operations

variable [FloatNum F]

/-- The hash and the sequence number of a tail line. -/
def tailEntry (F : Type) [FloatNum F] (lastSequence : Int) (line : Bytes) :
    Except Raised (PyStr × Int) :=
  match decodeUtf8 line with
  | none => .error .integrityError
  | some text =>
      match loads (F := F) text with
      | .error .jsonDecodeError => .error .integrityError
      | .error .valueError => .error (.python .valueError)
      | .ok (.obj entry) =>
          match hexHashOf (lookup (py "record_hash") entry) with
          | none => .error .securityError
          | some h =>
              .ok (h, ((lookup (py "sequence") entry).bind sequenceNumber).getD lastSequence)
      | .ok _ => .error (.python .attributeError)

/-- The loop of `_tail_state_locked`, newest segment first. -/
def tailFrom (F : Type) [FloatNum F] (lastSequence : Int) :
    List (PyStr × Bytes) → Except Raised (PyStr × Int)
  | [] => .ok (zeroHash, 0)
  | segment :: older =>
      match (tailLines segment.2).getLast? with
      | none => tailFrom F lastSequence older
      | some line => tailEntry F lastSequence line

/-- `_tail_state_locked`. -/
def tailState (F : Type) [FloatNum F] (lg : Logger) (dir : Dir) : Except Raised (PyStr × Int) :=
  tailFrom F lg.lastSequence (segmentsFor lg.config.fileName dir).reverse

/-! ## Rotation -/

/-- What `_rotate_locked` does: nothing to an absent or empty active file. -/
def rotateEffects (c : Config) (dir : Dir) : List Effect :=
  if (dir.files.get? c.fileName).getD [] = [] then []
  else
    let name := rotatedName c.fileName (nextRotationIndex c.fileName dir)
    let rotated := rotatedOf c.fileName (Effect.apply dir (.replace c.fileName name))
    .replace c.fileName name ::
      (rotated.take (rotated.length - c.backupCount.toNat)).map (fun r => .unlink r.2.1)

/-- The name of the new segment, if there is one. -/
def rotatedTo (c : Config) (dir : Dir) : Option PyStr :=
  if (dir.files.get? c.fileName).getD [] = [] then none
  else some (rotatedName c.fileName (nextRotationIndex c.fileName dir))

/-- `rotate`. -/
def rotate (lg : Logger) (dir : Dir) : Option PyStr × Dir :=
  (rotatedTo lg.config dir, applyAll dir (rotateEffects lg.config dir))

/-! ## Appending -/

/-- A record ready to be written. -/
structure Plan (F : Type) where
  entry : Mapping F
  hash : PyStr
  line : Bytes
  effects : List Effect

/-- Does the line push a non-empty active file over `max_bytes`? -/
def needsRotation (c : Config) (dir : Dir) (line : Bytes) : Bool :=
  let active := (dir.files.get? c.fileName).getD []
  active != [] && decide (c.maxBytes < active.length + line.length)

/-- `_append_record_locked` from `_build_entry` on, up to the first effect; `lg` holds the tail
    state. -/
def planAppend (H : HexDigest) (lg : Logger) (dir : Dir) (stamp : Stamp F) (input : RecordInput F) :
    Except Raised (Plan F) :=
  match buildEntry H stamp lg.lastHash lg.lastSequence input with
  | .error x => .error (.python x)
  | .ok entry =>
      match encodeLine entry with
      | .error x => .error (.python x)
      | .ok line =>
          if lg.config.maxRecordBytes < line.length then .error (.python .valueError)
          else
            .ok {
              entry := entry
              hash := (hexHashOf (lookup (py "record_hash") entry)).getD zeroHash
              line := line
              effects :=
                (if needsRotation lg.config dir line then rotateEffects lg.config dir else []) ++
                  [.create lg.config.fileName, .append lg.config.fileName line] }

/-- The steps of `_append_record_locked` before the entry is built: the input is checked and the
    logger takes over the tail state. -/
def refresh (F : Type) [FloatNum F] (lg : Logger) (dir : Dir) (input : RecordInput F) :
    Except Raised Logger :=
  match validateRecordInput input with
  | .error x => .error (.python x)
  | .ok () =>
      match tailState F lg dir with
      | .error x => .error x
      | .ok (h, n) => .ok { lg with lastHash := h, lastSequence := n }

/-- `_append_record_locked` up to its first effect: the logger it leaves, and the plan. `stamp` is
    what the clock and `uuid4` give. -/
def prepare (H : HexDigest) (lg : Logger) (dir : Dir) (stamp : Except PyExc (Stamp F))
    (input : RecordInput F) : Logger × Except Raised (Plan F) :=
  match refresh F lg dir input with
  | .error x => (lg, .error x)
  | .ok lg =>
      match stamp with
      | .error x => (lg, .error (.python x))
      | .ok stamp => (lg, planAppend H lg dir stamp input)

/-- `record`, with every system call succeeding. -/
def record (H : HexDigest) (lg : Logger) (dir : Dir) (stamp : Except PyExc (Stamp F))
    (input : RecordInput F) : Except Raised PyStr × Logger × Dir :=
  match prepare H lg dir stamp input with
  | (lg, .error x) => (.error x, lg, dir)
  | (lg, .ok plan) =>
      (.ok plan.hash, { lg with lastHash := plan.hash, lastSequence := lg.lastSequence + 1 },
        applyAll dir plan.effects)

attribute [grind =] refresh prepare record

/-- What is left of a list of effects when the process stops: some of them from the start, the last
    of which may be a shortened write. -/
inductive Cut : List Effect → List Effect → Prop
  | stop (effects : List Effect) : Cut effects []
  | step (e : Effect) {effects done : List Effect} (h : Cut effects done) :
      Cut (e :: effects) (e :: done)
  | short (name : PyStr) (written rest : Bytes) (effects : List Effect) :
      Cut (.append name (written ++ rest) :: effects) [.append name written]

/-- The bytes that a part of an append has put in the active file. -/
def written : List Effect → Bytes
  | [] => []
  | .append _ data :: effects => data ++ written effects
  | _ :: effects => written effects

/-! ## Opening -/

/-- `verify_audit_directory` on the segments of a listing. -/
def verify (F : Type) [FloatNum F] (H : HexDigest) (fileName : PyStr) (dir : Dir) (repaired : Bool)
    (artifact : Option PyStr) : Except PyExc IntegrityReport :=
  verifySegments (F := F) H (segmentsFor fileName dir) repaired artifact

/-- `verify_audit_directory`. -/
def verifyDirectory (F : Type) [FloatNum F] (H : HexDigest) (fileName : PyStr) (dir : Dir)
    (repaired : Bool) (artifact : Option PyStr) : Except PyExc IntegrityReport := do
  let segments ← listSegments fileName dir
  verifySegments (F := F) H segments repaired artifact

/-- `data.rfind(b"\n") + 1`. -/
def completeLength (data : Bytes) : Nat := (data.reverse.dropWhile (fun b => b != lf)).length

/-- Is there a regular file called `corrupt`? `corrupt.mkdir(exist_ok=True)` then raises
    `FileExistsError`. -/
def corruptTaken (dir : Dir) : Bool := (dir.files.get? (py "corrupt")).isSome

/-- `_repair_active_trailing_partial_locked`: the bytes after the last line feed go to a new file
    under `corrupt/`. -/
def repairActive (c : Config) (artifact : PyStr) (dir : Dir) :
    Except Raised (Option PyStr × Dir) :=
  match dir.files.get? c.fileName with
  | none => .ok (none, dir)
  | some data =>
      if data = [] ∨ endsWithLf data = true then .ok (none, dir)
      else if corruptTaken dir then .error .osError
      else if (dir.corrupt.get? artifact).isSome then .error .osError
      else
        .ok (some artifact,
          { files := dir.files.set c.fileName (data.take (completeLength data))
            corrupt := dir.corrupt.set artifact (data.drop (completeLength data)) })

def textOrNull : Option PyStr → Json F
  | none => .null
  | some s => .str s

def Coverage.name : Coverage → PyStr
  | .unknown => py "UNKNOWN"
  | .fullFromGenesis => py "FULL_FROM_GENESIS"
  | .retainedWindow => py "RETAINED_WINDOW"

/-- `report.to_dict()`. -/
def IntegrityReport.toDict (r : IntegrityReport) : Mapping F :=
  [(py "valid", .bool r.valid),
    (py "record_count", .int r.recordCount),
    (py "segment_count", .int r.segmentCount),
    (py "coverage", .str r.coverage.name),
    (py "first_prev_hash", .str r.firstPrevHash),
    (py "last_hash", .str r.lastHash),
    (py "last_sequence", .int r.lastSequence),
    (py "error", textOrNull (r.error.map IntegrityError.code)),
    (py "error_segment", textOrNull r.errorSegment),
    (py "error_line", (r.errorLine.map (fun n => Json.int n)).getD .null),
    (py "repaired_trailing_partial", .bool r.repairedTrailingPartial),
    (py "recovery_artifact", textOrNull r.recoveryArtifact)]

theorem IntegrityReport.toDict_wf (r : IntegrityReport) : (Json.obj r.toDict : Json F).WF := by
  refine ⟨?_, wfMembers_iff.2 fun kv hkv => ?_⟩
  · have hkeys : (r.toDict : Mapping F).map Prod.fst =
        ["valid", "record_count", "segment_count", "coverage", "first_prev_hash", "last_hash",
          "last_sequence", "error", "error_segment", "error_line", "repaired_trailing_partial",
          "recovery_artifact"].map py := rfl
    rw [hkeys]
    decide
  · have hnull : ∀ o : Option PyStr, (textOrNull o : Json F).WF := by
      intro o
      cases o <;> trivial
    simp only [IntegrityReport.toDict, List.mem_cons, List.not_mem_nil, or_false] at hkv
    rcases hkv with rfl | rfl | rfl | rfl | rfl | rfl | rfl | rfl | rfl | rfl | rfl | rfl
    all_goals first | exact hnull _ | trivial | skip
    cases r.errorLine <;> trivial

/-- The record that starts the new chain after a quarantine. -/
def recoveryInput (report : IntegrityReport) (artifact : PyStr) : RecordInput F where
  source := py "audit"
  subject := py "corruption_recovery"
  payload := [
    (py "previous_integrity", .obj report.toDict),
    (py "quarantined_to", .str artifact),
    (py "limitation", .str (py ("A new chain was started. The prior corrupted chain is preserved " ++
      "for forensic review but is not trusted.")))]
  wf := ⟨by show (["previous_integrity", "quarantined_to", "limitation"].map py).Nodup; decide,
    report.toDict_wf, trivial, trivial, trivial⟩

/-- The bytes of `integrity-report.json`: `json.dumps` refuses a sequence number beyond the digit
    limit, and `encode` a segment name with a lone surrogate. -/
def reportBytes (F : Type) [FloatNum F] (report : IntegrityReport) : Except PyExc Bytes :=
  match dumps (F := F) (.indented 2) true (.obj report.toDict) with
  | none => .error .valueError
  | some text => encode (text ++ [10])

/-- Is there a file or a directory of this name in `corrupt/`? -/
def inCorrupt (dir : Dir) (name : PyStr) : Bool :=
  dir.corrupt.items.any (fun file => file.1 == name || (stripText (name ++ [47]) file.1).isSome)

/-- The segments move below a new directory of `corrupt/`, under their own names. -/
def moveSegments (c : Config) (chain : PyStr) (dir : Dir) : Dir :=
  (segmentsFor c.fileName dir).foldl
    (fun d segment =>
      { files := d.files.pop segment.1
        corrupt := d.corrupt.set (chain ++ [47] ++ segment.1) segment.2 }) dir

/-- `_quarantine_corrupt_segments_locked`: every segment, and the report, move below a new directory
    of `corrupt/`. `mkdir` and `O_EXCL` refuse a name that is taken, and the report file is created
    before its text is made. -/
def quarantineSegments (F : Type) [FloatNum F] (c : Config) (report : IntegrityReport)
    (chain : PyStr) (dir : Dir) : Except Raised Unit × Dir :=
  if corruptTaken dir then (.error .osError, dir)
  else if inCorrupt dir chain then (.error .osError, dir)
  else
    let moved := moveSegments c chain dir
    let path := chain ++ py "/integrity-report.json"
    if (moved.corrupt.get? path).isSome then (.error .osError, moved)
    else
      match reportBytes F report with
      | .error x => (.error (.python x), { moved with corrupt := moved.corrupt.set path [] })
      | .ok data => (.ok (), { moved with corrupt := moved.corrupt.set path data })

/-- What `__init__` takes from its surroundings: the two names made from `time_ns`, and the stamp of
    the recovery record. -/
structure OpenEnv (F : Type) where
  artifact : PyStr
  chain : PyStr
  stamp : Except PyExc (Stamp F)

/-- `__init__` after `_enforce_segment_permissions_locked`. -/
def openLogger (H : HexDigest) (c : Config) (env : OpenEnv F) (dir : Dir) :
    Except Raised Logger × Dir :=
  if c.valid = false then (.error (.python .valueError), dir)
  else
    match (if c.repairTrailingPartial then repairActive c env.artifact dir else .ok (none, dir)) with
    | .error x => (.error x, dir)
    | .ok (artifact, dir) =>
        match verify F H c.fileName dir artifact.isSome artifact with
        | .error x => (.error (.python x), dir)
        | .ok report =>
            let lg : Logger :=
              { config := c, repairedPartial := artifact.isSome, recoveryArtifact := artifact }
            if report.valid then
              (.ok { lg with lastHash := report.lastHash, lastSequence := report.lastSequence }, dir)
            else if c.quarantineCorrupt = false then (.error .integrityError, dir)
            else
              let lg := { lg with recoveryArtifact := some env.chain }
              match quarantineSegments F c report env.chain dir with
              | (.error x, dir) => (.error x, dir)
              | (.ok (), dir) =>
                  match record H lg dir env.stamp (recoveryInput report env.chain) with
                  | (.error x, _, dir) => (.error x, dir)
                  | (.ok _, lg, dir) => (.ok lg, dir)

/-- `__init__`, after the directory and the lock file are in place. Setting the permissions of the
    segments lists them. -/
def initLogger (H : HexDigest) (c : Config) (env : OpenEnv F) (dir : Dir) :
    Except Raised Logger × Dir :=
  match listSegments c.fileName dir with
  | .error x => (.error (.python x), dir)
  | .ok _ => openLogger H c env dir

/-! ## Directories without a name that raises -/

theorem verifyDirectory_eq {H : HexDigest} {fileName : PyStr} {dir : Dir} (h : Listable fileName dir)
    (repaired : Bool) (artifact : Option PyStr) :
    verifyDirectory F H fileName dir repaired artifact = verify F H fileName dir repaired artifact := by
  rw [verifyDirectory, listSegments_ok_iff.2 ⟨h, rfl⟩]
  rfl

theorem initLogger_eq {H : HexDigest} {c : Config} {dir : Dir} (h : Listable c.fileName dir)
    (env : OpenEnv F) : initLogger H c env dir = openLogger H c env dir := by
  rw [initLogger, listSegments_ok_iff.2 ⟨h, rfl⟩]

/-- A name that raises keeps the logger from opening. -/
theorem listable_of_initLogger {H : HexDigest} {c : Config} {env : OpenEnv F} {dir dir' : Dir}
    {lg : Logger} (h : initLogger H c env dir = (.ok lg, dir')) : Listable c.fileName dir := by
  unfold initLogger at h
  cases hlist : listSegments c.fileName dir with
  | error x => simp [hlist] at h
  | ok segments => exact (listSegments_ok_iff.1 hlist).1

end Operations

end Elyra.Audit
