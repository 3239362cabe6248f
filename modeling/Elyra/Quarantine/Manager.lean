import Elyra.Quarantine.Record

set_option autoImplicit false

/-! # The quarantine manager

`quarantine_file`, `restore_file` and `delete_permanently` of `response/quarantine_manager.py` as
programs over the calls they make. A file is read whole and a descriptor is the number of the open
file; closing it has no effect here. What the manager takes from the host without asking the file
system (where a path text leads, the home directory, the text of an exception) is in `Manager`.

An exception leaves `quarantine_file`'s `try` block with the values its local variables have at that
point (`Locals`), since the rollback works from them. -/

namespace Elyra.Quarantine

open Elyra.Python Elyra.Posix

/-! ## Names -/

/-- An entry of a directory. -/
structure Path where
  dir : PyStr
  name : PyStr
  deriving DecidableEq, Repr

/-- `str(path)`. -/
def Path.text (p : Path) : PyStr :=
  if p.dir = py "/" then 47 :: p.name else p.dir ++ 47 :: p.name

/-- `str(Path(text).parent)`. -/
def parentText (text : PyStr) : PyStr :=
  match (text.reverse.dropWhile (· ≠ 47)).reverse.dropLast with
  | [] => py "/"
  | dir => dir

/-- The directories `_fsync_directory` is called on. -/
inductive Directory where
  | quarantine
  | metadata
  | parent (p : Path)
  deriving DecidableEq, Repr

/-- `f".elyra-{id}.pending"`. -/
def holdingName (id : PyStr) : PyStr := py ".elyra-" ++ id ++ py ".pending"

/-- `f".{id}.{token}.tmp"`. -/
def temporaryName (id token : PyStr) : PyStr := py "." ++ id ++ py "." ++ token ++ py ".tmp"

/-- `f".{id}.delete-pending"`. -/
def deletePendingName (id : PyStr) : PyStr := py "." ++ id ++ py ".delete-pending"

/-- `f"{id}.json"`. -/
def metadataName (id : PyStr) : PyStr := id ++ py ".json"

/-- The manager's directories and its host. -/
structure Manager where
  quarantineDir : PyStr
  metadataDir : PyStr
  /-- The entry an absolute path leads to, its parent directory resolved; `none` where the parent
      does not exist. -/
  locate : PyStr → Option Path
  expanduser : PyStr → PyStr
  cwd : PyStr
  /-- `mimetypes.guess_type(name)[0]`. -/
  guessType : PyStr → Option PyStr
  /-- `str(exc)`. -/
  str : Exc → PyStr

namespace Manager

def payloadPath (m : Manager) (id : PyStr) : Path := ⟨m.quarantineDir, id⟩

def payloadTemporary (m : Manager) (id token : PyStr) : Path :=
  ⟨m.quarantineDir, temporaryName id token⟩

def deletePending (m : Manager) (id : PyStr) : Path := ⟨m.quarantineDir, deletePendingName id⟩

def metadataPath (m : Manager) (id : PyStr) : Path := ⟨m.metadataDir, metadataName id⟩

def metadataTemporary (m : Manager) (id token : PyStr) : Path :=
  ⟨m.metadataDir, temporaryName id token⟩

end Manager

def holdingPath (source : Path) (id : PyStr) : Path := ⟨source.dir, holdingName id⟩

/-! ## Calls -/

inductive Call (F : Type) where
  | file (c : FileCall Path Directory)
  /-- `Path.resolve(strict=True)` of a directory, and whether it is one. -/
  | resolve (dir : PyStr)
  /-- `str(uuid.uuid4())`. -/
  | uuid4
  /-- `uuid.uuid4().hex`. -/
  | token
  | time
  /-- `_utc_iso`. -/
  | utcIso (t : F)
  /-- `magic.from_file`; `none` where the package or its library is missing (`ImportError` and
      `AttributeError`) or finds nothing. -/
  | magic (p : Path)
  | geteuid

def Call.Answer {F : Type} : Call F → Type
  | .file c => c.Answer
  | .resolve _ => Bool
  | .uuid4 => PyStr
  | .token => PyStr
  | .time => F
  | .utcIso _ => PyStr
  | .magic _ => Option PyStr
  | .geteuid => Nat

def interface (F : Type) : Interface where
  Call := Call F
  Answer := Call.Answer
  Failure := Exc

variable {F : Type} {α : Type}

abbrev Prog (F α : Type) := Program (interface F) Exc α

/-- A call that raises when it fails. -/
def ask (c : Call F) : Prog F c.Answer :=
  .call c fun
    | .ok a => .done a
    | .error e => .raise e

def sys (c : FileCall Path Directory) : Prog F c.Answer := ask (.file c)

def lift (x : Except Exc α) : Prog F α :=
  match x with
  | .ok a => .done a
  | .error e => .raise e

/-- `if not ok: raise e`. -/
def check (ok : Prop) [Decidable ok] (e : Exc) : Prog F Unit :=
  if ok then .done () else .raise e

/-- `os.path.lexists`. -/
def lexists (p : Path) : Prog F Bool :=
  .call (.file (.lexists p)) fun
    | .ok b => .done b
    | .error _ => .done false

/-- `path.unlink(missing_ok=True)`. -/
def unlinkMissingOk (p : Path) : Prog F Unit :=
  .call (.file (.unlink p)) fun
    | .ok _ => .done ()
    | .error (.os .noEntry) => .done ()
    | .error e => .raise e

/-- `try: p except OSError: cleanup; raise`. -/
def onOsError (p : Prog F α) (cleanup : Prog F Unit) : Prog F α :=
  p.orElse fun e =>
    match e with
    | .os _ => do
        cleanup
        .raise e
    | _ => .raise e

/-! ## Files -/

/-- `_fsync_directory`. -/
def fsyncDirectory (d : Directory) : Prog F Unit :=
  .call (.file (.openDir d)) fun
    | .error _ => .done ()
    | .ok _ => .call (.file (.fsyncDir d)) fun
        | .ok _ => .done ()
        | .error (.os .invalid) => .done ()
        | .error (.os .readOnly) => .done ()
        | .error e => .raise e

/-- `_open_regular_nofollow`. -/
def openRegularNofollow (m : Manager) (p : Path) : Prog F (Nat × Stat) :=
  .call (.file (.openRead p)) fun
    | .error (.os .loop) =>
        .raise (.error .quarantine (py "Symbolic-link path rejected: " ++ p.text))
    | .error e =>
        .raise (.error .quarantine
          (py "Cannot securely open file: " ++ p.text ++ py ": " ++ m.str e))
    | .ok (fd : Nat) => do
        let opened : Stat ← sys (.fstat fd)
        check (opened.kind = .regular)
          (.error .quarantine (py "Only regular files can be quarantined: " ++ p.text))
        let named : Stat ← sys (.lstat p)
        check (named.kind ≠ .symlink)
          (.error .quarantine (py "Symbolic-link path rejected: " ++ p.text))
        check (named.device = opened.device ∧ named.inode = opened.inode)
          (.error .integrity (py "File identity changed while opening: " ++ p.text))
        return (fd, opened)

/-- `_hash_fd`. -/
def hashFd (fd : Nat) : Prog F PyStr := do
  let data : Bytes ← sys (.readAll fd)
  return sha256 data

/-- `_assert_fd_unchanged`. -/
def assertFdUnchanged (fd : Nat) (initial : Stat) (operation : PyStr) : Prog F Unit := do
  let current : Stat ← sys (.fstat fd)
  check (current.device = initial.device ∧ current.inode = initial.inode ∧
      current.size = initial.size ∧ current.mtime = initial.mtime ∧ current.ctime = initial.ctime)
    (.error .integrity
      (py "Source changed during " ++ operation ++ py "; quarantine was aborted"))

/-- `_assert_path_matches_fd`. -/
def assertPathMatchesFd (p : Path) (fd : Nat) (initial : Stat) : Prog F Unit := do
  let named : Stat ← sys (.lstat p)
  let opened : Stat ← sys (.fstat fd)
  check (named.kind ≠ .symlink)
    (.error .integrity (py "Holding path became a symbolic link: " ++ p.text))
  check (named.device = initial.device ∧ named.inode = initial.inode)
    (.error .integrity (py "Source identity changed during protected move"))
  check (opened.device = initial.device ∧ opened.inode = initial.inode)
    (.error .integrity (py "Opened source identity changed unexpectedly"))

/-- The write loop; every call takes at least one byte, so the number of bytes bounds the number of
    calls. A write of nothing is the `OSError` of a short write, which has no number. -/
def writeLoop : Nat → Nat → Bytes → Prog F Unit
  | 0, _, _ => .done ()
  | fuel + 1, fd, data =>
      if data = [] then .done ()
      else .call (.file (.write fd data)) fun
        | .error e => .raise e
        | .ok (written : Nat) =>
            if written = 0 then .raise (.os (.other 0))
            else writeLoop fuel fd (data.drop written)

def writeAll (fd : Nat) (data : Bytes) : Prog F Unit := writeLoop data.length fd data

/-- `_copy_between_fds`. -/
def copyBetweenFds (source destination : Nat) : Prog F (PyStr × Nat) := do
  let data : Bytes ← sys (.readAll source)
  writeAll destination data
  return (sha256 data, data.length)

/-- `_copy_fd_to_new_file`. -/
def copyFdToNewFile (source : Nat) (destination : Path) : Prog F (PyStr × Nat) := do
  let fd : Nat ← sys (.openNew destination)
  let copied ← copyBetweenFds source fd
  let _ ← sys (.fchmod fd 0o600)
  let _ ← sys (.fsync fd)
  return copied

/-- The fallback of `_move_noreplace`, for a kernel or a file system without `renameat2`. -/
def linkAndUnlink (source destination : Path) : Prog F Unit :=
  .call (.file (.link source destination)) fun
    | .error e => .raise e
    | .ok _ => .call (.file (.unlink source)) fun
        | .ok _ => .done ()
        -- the link is taken back; a failure of that is only logged
        | .error e => .call (.file (.unlink destination)) fun _ => .raise e

/-- `_move_noreplace`. -/
def moveNoreplace (source destination : Path) : Prog F Unit := do
  let occupied ← lexists destination
  check (occupied = false)
    (.error .conflict (py "Destination already exists: " ++ destination.text))
  .call (.file (.rename source destination)) fun
    | .ok _ => .done ()
    | .error (.os .noSyscall) => linkAndUnlink source destination
    | .error (.os .invalid) => linkAndUnlink source destination
    | .error e => .raise e

/-- `_detect_file_type`. -/
def detectFileType (m : Manager) (p : Path) : Prog F PyStr :=
  .call (.file (.openFile p)) fun
    | .error _ => .done (py "application/octet-stream")
    | .ok (fd : Nat) => .call (.file (.readHead fd 4)) fun
        | .error _ => .done (py "application/octet-stream")
        | .ok (head : Bytes) =>
            if head = [0x7f, 0x45, 0x4c, 0x46] then .done (py "application/x-elf")
            else .call (.magic p) fun
              | .ok (some (c :: detected)) => .done (c :: detected)
              | .ok _ => .done ((m.guessType p.name).getD (py "application/octet-stream"))
              | .error (.os _) => .done ((m.guessType p.name).getD (py "application/octet-stream"))
              | .error e => .raise e

/-! ## Metadata -/

section Metadata

variable [FloatNum F]

/-- The temporary file of `_write_metadata_atomic`, complete before it gets its name. -/
def writeTemporary (temporary : Path) (data : Bytes) : Prog F Unit := do
  let fd : Nat ← sys (.openNew temporary)
  onOsError
    (do
      writeAll fd data
      let _ ← sys (.fchmod fd 0o600)
      let _ ← sys (.fsync fd)
      return ())
    (unlinkMissingOk temporary)

/-- An existing metadata file is only replaced where it is a regular file. -/
def checkDestination (destination : Path) : Prog F Unit := do
  let found ← lexists destination
  if found then
    (do
      let named : Stat ← sys (.lstat destination)
      check (named.kind = .regular)
        (.error .metadata (py "Metadata destination is not a regular file: " ++ destination.text)))
  else .done ()

/-- The second half of `_write_metadata_atomic`: the complete file gets its name. -/
def commitTemporary (temporary destination : Path) : Prog F Unit :=
  onOsError
    (do
      let _ ← sys (.replace temporary destination)
      let _ ← sys (.chmod destination 0o600)
      fsyncDirectory .metadata)
    (unlinkMissingOk temporary)

/-- `_write_metadata_atomic`. -/
def writeMetadataAtomic (m : Manager) (r : QuarantineRecord F) : Prog F Unit := do
  lift (validateRecord r)
  let id ← lift (validateQuarantineId r.quarantineId)
  let destination := m.metadataPath id
  checkDestination destination
  let data ← lift (encodeRecord r)
  let token : PyStr ← ask .token
  let temporary := m.metadataTemporary (pyStr r.quarantineId) token
  writeTemporary temporary data
  commitTemporary temporary destination

/-- `_load_metadata`. -/
def loadMetadata (m : Manager) (quarantineId : Json F) : Prog F (QuarantineRecord F) := do
  let safeId ← lift (validateQuarantineId quarantineId)
  let path := m.metadataPath safeId
  let found ← lexists path
  check (found = true) (.error .metadata (py "Metadata not found: " ++ safeId))
  let named : Stat ← sys (.lstat path)
  check (named.kind = .regular) (.error .metadata (py "Metadata path is unsafe: " ++ path.text))
  let data : Bytes ← (do
      let fd : Nat ← sys (.openFile path)
      sys (.readAll fd)).orElse fun e =>
    .raise (.error .metadata (py "Metadata cannot be read: " ++ safeId ++ py ": " ++ m.str e))
  lift (decodeRecord m.str safeId data)

end Metadata

/-! ## Quarantining -/

/-- The arguments of `quarantine_file`. Those whose type the function checks are any value. -/
structure QuarantineArgs (F : Type) where
  path : PyStr
  expectedSha256 : Json F
  reason : Json F
  relatedPid : Json F
  triggeredRules : Json F
  processInfo : Json F
  expectedDevice : Option Nat
  expectedInode : Option Nat
  expectedSize : Option Nat
  expectedMtimeNs : Option Nat
  expectedCtimeNs : Option Nat
  rules_wf : triggeredRules.WF
  process_wf : processInfo.WF

/-- The arguments after their checks. -/
structure SafeArgs (F : Type) where
  reason : PyStr
  relatedPid : Json F
  triggeredRules : Json F
  processInfo : Json F

/-- `_validate_expected_hash`. -/
def validateExpectedHash : Json F → Except Exc Unit
  | .null => .ok ()
  | .str s =>
      if s.length = 64 ∧ (lower s).all Audit.isHexDigit then .ok ()
      else .error (.error .quarantine
        (py "expected_sha256 must contain 64 hexadecimal characters"))
  | _ => .error (.error .quarantine (py "expected_sha256 must contain 64 hexadecimal characters"))

/-- `_require_nonempty_text`. -/
def requireNonemptyText (value : Json F) (name : PyStr) : Except Exc PyStr :=
  match value with
  | .str s =>
      if strip s = [] then .error (.error .quarantine (name ++ py " must be a non-empty string"))
      else .ok (strip s)
  | _ => .error (.error .quarantine (name ++ py " must be a non-empty string"))

/-- `_validate_pid`. -/
def validatePid : Json F → Except Exc (Json F)
  | .null => .ok .null
  | .int n =>
      if 0 < n then .ok (.int n)
      else .error (.error .quarantine (py "related_pid must be a positive integer or null"))
  | _ => .error (.error .quarantine (py "related_pid must be a positive integer or null"))

section Quarantine

variable [FloatNum F]

/-- `triggered_rules` must be a list that JSON can hold. -/
def validateRules (rules : Json F) : Except Exc (Json F) :=
  match rules with
  | .arr _ => do
      requireJsonValue rules (py "triggered_rules")
      return rules
  | _ => throw (.error .quarantine (py "triggered_rules must be a list"))

/-- `process_info or {}` must be a dictionary that JSON can hold. -/
def validateProcess (process : Json F) : Except Exc (Json F) :=
  match process with
  | .null => return .obj []
  | .obj _ => do
      requireJsonValue process (py "process_info")
      return process
  | _ => throw (.error .quarantine (py "process_info must be an object"))

/-- The checks `quarantine_file` makes on its arguments. -/
def validateArgs (args : QuarantineArgs F) : Except Exc (SafeArgs F) := do
  validateExpectedHash args.expectedSha256
  let safeReason ← requireNonemptyText args.reason (py "reason")
  let safeRules ← validateRules args.triggeredRules
  let safeProcess ← validateProcess args.processInfo
  let safePid ← validatePid args.relatedPid
  return ⟨safeReason, safePid, safeRules, safeProcess⟩

/-- The path with the home directory filled in, made absolute. -/
def Manager.absolute (m : Manager) (path : PyStr) : PyStr :=
  let expanded := m.expanduser path
  if isAbsolute expanded then expanded else m.cwd ++ 47 :: expanded

/-- `_canonical_source_path`. -/
def canonicalSourcePath (m : Manager) (path : PyStr) : Prog F Path :=
  let raw := m.absolute path
  match m.locate raw with
  | none => .raise (.error .quarantine (py "Source file does not exist: " ++ raw))
  | some canonical => do
      let found ← lexists canonical
      check (found = true) (.error .quarantine (py "Source file does not exist: " ++ raw))
      let named : Stat ← sys (.lstat canonical)
      check (named.kind ≠ .symlink)
        (.error .quarantine (py "Symbolic-link sources are not accepted: " ++ raw))
      let _ ← (ask (.resolve canonical.dir)).orElse fun _ =>
        .raise (.error .quarantine
          (py "Cannot resolve source parent directory: " ++ parentText raw))
      let present ← lexists canonical
      check (present = true)
        (.error .quarantine
          (py "Source file disappeared before quarantine: " ++ canonical.text))
      return canonical

/-- The identity checks of `quarantine_file` on the opened source. -/
def checkExpected (args : QuarantineArgs F) (opened : Stat) : Except Exc Unit := do
  match args.expectedDevice, args.expectedInode with
  | none, none => pure ()
  | some device, some inode =>
      if opened.device ≠ device ∨ opened.inode ≠ inode then
        throw (.error .integrity
          (py "Source file identity changed before quarantine; no file was removed"))
  | _, _ => throw (.error .quarantine
      (py "expected_device and expected_inode must be supplied together"))
  if args.expectedSize.isSome ∧ args.expectedSize ≠ some opened.size then
    throw (.error .integrity (py "Source file size changed before quarantine; no file was removed"))
  if args.expectedMtimeNs.isSome ∧ args.expectedMtimeNs ≠ some opened.mtime then
    throw (.error .integrity
      (py "Source file modification time changed before quarantine; no file was removed"))
  if args.expectedCtimeNs.isSome ∧ args.expectedCtimeNs ≠ some opened.ctime then
    throw (.error .integrity
      (py "Source file change time changed before quarantine; no file was removed"))
  if opened.links ≠ 1 then
    throw (.error .quarantine
      (py "Source has multiple hard links; path-only quarantine cannot isolate all aliases"))

/-- `expected_sha256 and source_hash != expected_sha256.lower()`. -/
def checkSourceHash (args : QuarantineArgs F) (hash : PyStr) : Except Exc Unit :=
  match args.expectedSha256 with
  | .str s =>
      if s ≠ [] ∧ hash ≠ lower s then
        .error (.error .integrity
          (py "Source hash changed before quarantine; the original file was not removed"))
      else .ok ()
  | _ => .ok ()

/-- The local variables `_rollback_quarantine` is called with. -/
structure Locals where
  holding : Option Path := none
  temporary : Option Path := none
  payload : Option Path := none
  metadata : Option Path := none
  deriving DecidableEq, Repr

/-- A part of the `try` block during which the local variables are `ℓ`. -/
def tracking (ℓ : Locals) (p : Prog F α) : Program (interface F) (Exc × Locals) α :=
  p.orElse fun e => .raise (e, ℓ)

/-- Opening and hashing the source. -/
def openSource (m : Manager) (args : QuarantineArgs F) (source : Path) :
    Prog F (Nat × Stat × PyStr) := do
  let (fd, opened) ← openRegularNofollow m source
  lift (checkExpected args opened)
  let hash ← hashFd fd
  assertFdUnchanged fd opened (py "hash calculation")
  lift (checkSourceHash args hash)
  return (fd, opened, hash)

/-- Moving the source to its holding name. -/
def holdSource (source holding : Path) (fd : Nat) (opened : Stat) : Prog F Stat := do
  moveNoreplace source holding
  assertPathMatchesFd holding fd opened
  let held : Stat ← sys (.fstat fd)
  check (held.size = opened.size ∧ held.mtime = opened.mtime)
    (.error .integrity (py "Source content changed during protected move"))
  return held

/-- Copying the held source under a temporary name. -/
def copySource (fd : Nat) (temporary : Path) (hash : PyStr) (opened held : Stat) : Prog F Unit := do
  let (copiedHash, copiedSize) ← copyFdToNewFile fd temporary
  check (copiedHash = hash ∧ copiedSize = opened.size)
    (.error .integrity (py "Protected quarantine copy does not match the opened source file"))
  assertFdUnchanged fd held (py "quarantine copy")

/-- The record of a quarantined file. -/
def newRecord (id : PyStr) (source : Path) (hash : PyStr) (opened : Stat) (safe : SafeArgs F)
    (fileType : PyStr) (now : F) (nowUtc : PyStr) : QuarantineRecord F where
  schemaVersion := .int 1
  quarantineId := .str id
  originalPath := .str source.text
  sha256 := .str hash
  sizeBytes := .int opened.size
  fileType := .str fileType
  timestamp := .float now
  timestampUtc := .str nowUtc
  reason := .str safe.reason
  relatedPid := safe.relatedPid
  processInfo := safe.processInfo
  triggeredRules := safe.triggeredRules
  originalMode := .int opened.mode
  originalUid := .int opened.uid
  originalGid := .int opened.gid
  sourceDevice := .int opened.device
  sourceInode := .int opened.inode
  sourceLinkCount := .int opened.links

/-- Protecting the payload and describing it. -/
def describePayload (m : Manager) (payload source : Path) (id hash : PyStr) (opened : Stat)
    (safe : SafeArgs F) : Prog F (QuarantineRecord F) := do
  let _ ← sys (.chmod payload 0o600)
  fsyncDirectory .quarantine
  let now ← ask .time
  let fileType ← detectFileType m payload
  let nowUtc : PyStr ← ask (.utcIso now)
  let record := newRecord id source hash opened safe fileType now nowUtc
  lift (validateRecord record)
  return record

/-- The `fsync` of the source's directory, whose failure is logged. -/
def fsyncSourceDirectory (source : Path) : Prog F Unit :=
  (fsyncDirectory (.parent source)).orElse fun e =>
    match e with
    | .os _ => .done ()
    | e => .raise e

/-- The `try` block from the moment the source is held. -/
def protectHeld (m : Manager) (safe : SafeArgs F) (source : Path) (id hash : PyStr) (fd : Nat)
    (opened held : Stat) : Program (interface F) (Exc × Locals) (QuarantineRecord F) := do
  let holding := holdingPath source id
  let payload := m.payloadPath id
  let token : PyStr ← tracking { holding := holding, payload := payload } (ask .token)
  let temporary := m.payloadTemporary id token
  tracking { holding := holding, temporary := temporary, payload := payload } (do
    copySource fd temporary hash opened held
    moveNoreplace temporary payload)
  let record ← tracking { holding := holding, payload := payload }
    (describePayload m payload source id hash opened safe)
  let metadata := m.metadataPath id
  tracking { holding := holding, payload := payload, metadata := metadata } (do
    writeMetadataAtomic m record
    let _ ← sys (.unlink holding)
    return ())
  tracking { payload := payload, metadata := metadata } (fsyncSourceDirectory source)
  return record

/-- The `try` block of `quarantine_file`. -/
def quarantineBody (m : Manager) (args : QuarantineArgs F) (safe : SafeArgs F) (source : Path) :
    Program (interface F) (Exc × Locals) (QuarantineRecord F) := do
  let (fd, opened, hash) ← tracking {} (openSource m args source)
  let id : PyStr ← tracking {} (ask .uuid4)
  let holding := holdingPath source id
  let held ← tracking { holding := holding } (holdSource source holding fd opened)
  protectHeld m safe source id hash fd opened held

def unlinkIfSet : Option Path → Prog F Unit
  | none => .done ()
  | some p => unlinkMissingOk p

/-- The first part of `_rollback_quarantine`: the held file moves back, unless its old name has been
    taken. -/
def moveBack (original : Path) : Option Path → Prog F (Option PyStr)
  | none => .done none
  | some holding => do
      let held ← lexists holding
      if held then do
        let occupied ← lexists original
        if occupied then
          .done (some (py "original path is occupied; recovery file retained at " ++ holding.text))
        else do
          moveNoreplace holding original
          fsyncDirectory (.parent original)
          .done none
      else .done none

/-- `_rollback_quarantine`. -/
def rollbackQuarantine (m : Manager) (original : Path) (ℓ : Locals) : Prog F (Option PyStr) :=
  Program.orElse
    (do
      let refused ← moveBack original ℓ.holding
      match refused with
      | some text => .done (some text)
      | none => do
          unlinkIfSet ℓ.temporary
          unlinkIfSet ℓ.metadata
          unlinkIfSet ℓ.payload
          fsyncDirectory .quarantine
          fsyncDirectory .metadata
          .done none)
    fun e =>
      match e with
      | .os _ => .done (some (m.str e))
      | e => .raise e

/-- The handler of `quarantine_file`. -/
def recover (m : Manager) (source : Path) (e : Exc) (ℓ : Locals) : Prog F (QuarantineRecord F) :=
  .undo do
    let incomplete ← rollbackQuarantine m source ℓ
    match incomplete, e with
    | some text, _ =>
        .raise (.error .quarantine
          (py "Quarantine failed and automatic rollback was incomplete: " ++ text))
    | none, .error _ _ => .raise e
    | none, _ => .raise (.error .quarantine (py "Quarantine failed safely: " ++ m.str e))

/-- `quarantine_file`. -/
def quarantineFile (m : Manager) (args : QuarantineArgs F) : Prog F (QuarantineRecord F) := do
  let source ← canonicalSourcePath m args.path
  let safe ← lift (validateArgs args)
  (quarantineBody m args safe source).orElse fun (e, ℓ) => recover m source e ℓ

end Quarantine

/-! ## Restoring -/

section Restore

variable [FloatNum F]

/-- `record.restoration_status == status`. -/
def hasStatus (r : QuarantineRecord F) (status : PyStr) : Bool :=
  match r.restorationStatus with
  | .str s => s == status
  | _ => false

/-- `hash == record.sha256 and size == record.size_bytes`. -/
def describes (r : QuarantineRecord F) (hash : PyStr) (size : Nat) : Bool :=
  (match r.sha256 with
    | .str s => s == hash
    | _ => false) &&
  match r.sizeBytes with
  | .int n => n == size
  | .bool b => (if b then 1 else 0) == size
  | _ => false

/-- An integer argument of a system call; `TypeError` for other values. -/
def natArgument : Json F → Except Exc Nat
  | .int n => .ok n.toNat
  | .bool b => .ok (if b then 1 else 0)
  | _ => .error .type

/-- `record.original_mode & 0o0777`. -/
def restoredMode : Json F → Except Exc Nat
  | .int n => .ok (n % 512).toNat
  | .bool b => .ok (if b then 1 else 0)
  | _ => .error .type

/-- `previous.to_dict() == record.to_dict()`; dictionaries are compared through their sorted text. -/
@[irreducible]
def sameDict (r r' : QuarantineRecord F) : Bool :=
  (Json.obj r.toDict).sortKeys.print .compact 0 == (Json.obj r'.toDict).sortKeys.print .compact 0

/-- `_prepare_restore_target`. -/
def prepareRestoreTarget (m : Manager) (destination : Option PyStr) (originalPath : Json F) :
    Prog F Path := do
  let given : PyStr ← lift (match destination, originalPath with
    | some d, _ => .ok d
    | none, .str s => .ok s
    | none, _ => .error .type)
  let raw := m.expanduser given
  check (isAbsolute raw = true)
    (.error .conflict (py "Restore destination must be an absolute path"))
  match m.locate raw with
  | none => .raise (.error .conflict
      (py "Restore parent directory does not exist or is inaccessible: " ++ parentText raw))
  | some target => do
      let occupied ← lexists target
      check (occupied = false)
        (.error .conflict
          (py "Restore destination already exists and will not be overwritten: " ++ raw))
      let isDir : Bool ← (ask (.resolve target.dir)).orElse fun _ =>
        .raise (.error .conflict
          (py "Restore parent directory does not exist or is inaccessible: " ++ parentText raw))
      check (isDir = true)
        (.error .conflict (py "Restore parent is not a directory: " ++ target.dir))
      let occupied ← lexists target
      check (occupied = false)
        (.error .conflict
          (py "Restore destination already exists and will not be overwritten: " ++ target.text))
      return target

/-- `_open_exclusive_restore_target`. -/
def openExclusiveRestoreTarget (target : Path) : Prog F Nat :=
  .call (.file (.openNew target)) fun
    | .ok (fd : Nat) => .done fd
    | .error (.os .exists) => .raise (.error .conflict
        (py "Restore destination already exists and will not be overwritten: " ++ target.text))
    | .error e => .raise e

/-- `_restore_ownership_if_privileged`. -/
def restoreOwnershipIfPrivileged (fd : Nat) (uid gid : Json F) : Prog F Bool := do
  let euid : Nat ← ask .geteuid
  if euid = 0 then do
    let uid ← lift (natArgument uid)
    let gid ← lift (natArgument gid)
    let _ ← sys (.fchown fd uid gid)
    return true
  else return false

/-- `_unlink_if_identity_matches`. -/
def unlinkIfIdentityMatches (p : Path) (device inode : Nat) : Prog F Unit := do
  let found ← lexists p
  if found then do
    let info : Stat ← sys (.lstat p)
    -- the `OSError` raised here is the manager's own, without a number
    check (info.device = device ∧ info.inode = inode) (.os (.other 0))
    let _ ← sys (.unlink p)
    return ()
  else return ()

/-- The local variables the handler of `restore_file` works from. -/
structure RestoreLocals (F : Type) where
  record : QuarantineRecord F
  target : Option Path := none
  identity : Option (Nat × Nat) := none

def trackingRestore (ℓ : RestoreLocals F) (p : Prog F α) :
    Program (interface F) (Exc × RestoreLocals F) α :=
  p.orElse fun e => .raise (e, ℓ)

/-- Opening the payload and comparing it with its record. -/
def openPayload (m : Manager) (payload : Path) (r : QuarantineRecord F) : Prog F Nat := do
  let (fd, opened) ← openRegularNofollow m payload
  let hash ← hashFd fd
  assertFdUnchanged fd opened (py "restore verification")
  check (describes r hash opened.size = true)
    (.error .integrity
      (py "Quarantine payload integrity verification failed; restoration was aborted"))
  return fd

/-- Filling the opened target; the mode and whether the owner was restored. -/
def fillTarget (payloadFd fd : Nat) (r : QuarantineRecord F) : Prog F (Nat × Bool) := do
  let (hash, size) ← copyBetweenFds payloadFd fd
  check (describes r hash size = true)
    (.error .integrity (py "Restored file does not match quarantine metadata"))
  let mode ← lift (restoredMode r.originalMode)
  let _ ← sys (.fchmod fd mode)
  let owned ← restoreOwnershipIfPrivileged fd r.originalUid r.originalGid
  let _ ← sys (.fsync fd)
  return (mode, owned)

/-- The `try` block of `restore_file`. -/
def restoreBody (m : Manager) (r : QuarantineRecord F) (payload : Path)
    (destination : Option PyStr) :
    Program (interface F) (Exc × RestoreLocals F) (QuarantineRecord F) := do
  let payloadFd ← trackingRestore { record := r } (openPayload m payload r)
  let target ← trackingRestore { record := r }
    (prepareRestoreTarget m destination r.originalPath)
  let fd ← trackingRestore { record := r, target := target } (openExclusiveRestoreTarget target)
  let opened : Stat ← trackingRestore { record := r, target := target } (sys (.fstat fd))
  let ℓ : RestoreLocals F :=
    { record := r, target := target, identity := some (opened.device, opened.inode) }
  let (mode, owned) ← trackingRestore ℓ (fillTarget payloadFd fd r)
  let filled : Stat ← trackingRestore ℓ (sys (.fstat fd))
  let ℓ : RestoreLocals F := { ℓ with identity := some (filled.device, filled.inode) }
  let now ← trackingRestore ℓ (ask .time)
  let r : QuarantineRecord F :=
    { r with restorationStatus := .str (py "restored"), restoredAt := .float now }
  let nowUtc : PyStr ← trackingRestore { ℓ with record := r } (ask (.utcIso now))
  let r : QuarantineRecord F := { r with
    restoredAtUtc := .str nowUtc
    restoredPath := .str target.text
    restoredMode := .int mode
    ownershipRestored := .bool owned }
  trackingRestore { ℓ with record := r } (do
    writeMetadataAtomic m r
    fsyncDirectory (.parent target))
  return r

/-- The rollback of the target; the text of its failure. -/
def discardTarget (m : Manager) (ℓ : RestoreLocals F) : Prog F (Option PyStr) :=
  match ℓ.target, ℓ.identity with
  | some target, some (device, inode) =>
      Program.orElse
        (do
          unlinkIfIdentityMatches target device inode
          .done none)
        fun e =>
          match e with
          | .os _ => .done (some (m.str e))
          | e => .raise e
  | _, _ => .done none

/-- The rollback of the metadata; the text of its failure. -/
def rewritePrevious (m : Manager) (previous : QuarantineRecord F) (ℓ : RestoreLocals F) :
    Prog F (Option PyStr) :=
  if sameDict previous ℓ.record then .done none
  else Program.orElse
    (do
      writeMetadataAtomic m previous
      .done none)
    fun e => .done (some (py "metadata rollback failed: " ++ m.str e))

/-- The handler of `restore_file`. -/
def recoverRestore (m : Manager) (previous : QuarantineRecord F) (e : Exc)
    (ℓ : RestoreLocals F) : Prog F (QuarantineRecord F) :=
  .undo do
    let targetError ← discardTarget m ℓ
    let metadataError ← rewritePrevious m previous ℓ
    match targetError.or metadataError, e with
    | some text, _ =>
        .raise (.error .quarantine
          (py "Restoration failed and rollback was incomplete: " ++ text))
    | none, .error _ _ => .raise e
    | none, _ => .raise (.error .quarantine (py "Restoration failed safely: " ++ m.str e))

/-- `restore_file`. -/
def restoreFile (m : Manager) (quarantineId : Json F) (destination : Option PyStr) :
    Prog F (QuarantineRecord F) := do
  let r ← loadMetadata m quarantineId
  check (hasStatus r (py "deleted") = false)
    (.error .quarantine
      (py "Quarantine item has been permanently deleted: " ++ pyStr quarantineId))
  let id ← lift (validateQuarantineId r.quarantineId)
  let payload := m.payloadPath id
  let found ← lexists payload
  check (found = true)
    (.error .quarantine (py "Quarantine payload does not exist: " ++ pyStr r.quarantineId))
  (restoreBody m r payload destination).orElse fun (e, ℓ) => recoverRestore m r e ℓ

/-! ## Deleting -/

/-- The `try` block of `delete_permanently`. -/
def deleteBody (m : Manager) (r : QuarantineRecord F) (pending : Path) :
    Prog F (QuarantineRecord F) := do
  let now ← ask .time
  let nowUtc : PyStr ← ask (.utcIso now)
  let r : QuarantineRecord F := { r with
    restorationStatus := .str (py "deleted")
    deletedAt := .float now
    deletedAtUtc := .str nowUtc }
  writeMetadataAtomic m r
  let _ ← sys (.unlink pending)
  fsyncDirectory .quarantine
  return r

/-- Moving the pending file back, where it is still there and its old name is free. -/
def movePendingBack (payload pending : Path) : Prog F Unit := do
  let held ← lexists pending
  if held then do
    let occupied ← lexists payload
    if occupied then .done () else moveNoreplace pending payload
  else .done ()

/-- The handler of `delete_permanently`. -/
def recoverDelete (m : Manager) (previous : QuarantineRecord F) (payload pending : Path) (e : Exc) :
    Prog F (QuarantineRecord F) :=
  .undo do
    Program.orElse
      (do
        movePendingBack payload pending
        writeMetadataAtomic m previous)
      fun e => .raise (.error .quarantine
        (py "Permanent deletion failed and rollback was incomplete: " ++ m.str e))
    match e with
    | .error _ _ => .raise e
    | _ => .raise (.error .quarantine (py "Permanent deletion failed safely: " ++ m.str e))

/-- `delete_permanently`; the record is what is audited, and `none` for an item that was deleted
    before. -/
def deletePermanently (m : Manager) (quarantineId : Json F) :
    Prog F (Option (QuarantineRecord F)) := do
  let r ← loadMetadata m quarantineId
  if hasStatus r (py "deleted") then .done none
  else do
    let id ← lift (validateQuarantineId r.quarantineId)
    let payload := m.payloadPath id
    let found ← lexists payload
    check (found = true)
      (.error .quarantine (py "Quarantine payload is missing: " ++ pyStr r.quarantineId))
    let pending := m.deletePending (pyStr r.quarantineId)
    moveNoreplace payload pending
    let deleted ← (deleteBody m r pending).orElse (recoverDelete m r payload pending)
    return some deleted

end Restore

end Elyra.Quarantine
