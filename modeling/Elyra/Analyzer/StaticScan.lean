import Elyra.Analyzer.Entropy
import Elyra.Analyzer.Pe
import Elyra.Analyzer.PreExecution
import Elyra.Ebpf.KernelHeaders

set_option autoImplicit false

/-! # The static file scanner

`StaticFileScanner` of `analyzer/static_analyzer.py`. What the system and the libraries answer in one scan
is a `Probe`: the stat of the file, its first bytes, what libmagic and pyelftools make of it, the open
file for the PE parser, and the outcome of the entropy engine. What is modelled is which evidence the
scanner makes of these answers, and where it stops. -/

namespace Elyra.Analyzer

open Elyra.Python

variable {F : Type}

/-! ## What a scan is answered -/

/-- `os.stat_result`. -/
structure Metadata where
  mode : Nat
  uid : Nat
  gid : Nat
  size : Nat
  device : Nat
  inode : Nat
  mtimeNs : Int
  deriving DecidableEq, Repr

namespace Metadata

/-- `bool(mode & bit)`. -/
def has (m : Metadata) (bit : Nat) : Bool := m.mode &&& bit != 0

def isSymlink (m : Metadata) : Bool := m.mode &&& 0o170000 == 0o120000

def isRegular (m : Metadata) : Bool := m.mode &&& 0o170000 == 0o100000

/-- `f"{stat.S_IMODE(mode):04o}"`. -/
def modeOctal (m : Metadata) : PyStr :=
  [m.mode / 512 % 8, m.mode / 64 % 8, m.mode / 8 % 8, m.mode % 8].map (48 + ·)

end Metadata

/-- How `stat` fails: the classes that are told apart, and what is no `OSError`. -/
inductive StatError where
  | fileNotFound
  | permission
  | os (text : PyStr)
  | raised (e : Exc)

/-- How pyelftools fails. -/
inductive ElfError where
  | os (text : PyStr)
  /-- `struct.error`, `ValueError` and `ELFError`. -/
  | malformed (text : PyStr)
  | other (typeName text : PyStr)
  deriving DecidableEq, Repr

structure ElfSection where
  name : PyStr
  type : PyStr
  offset : Nat
  size : Nat
  flags : Nat
  deriving DecidableEq, Repr

structure ElfSegment where
  type : PyStr
  offset : Nat
  fileSize : Nat
  memorySize : Nat
  flags : Nat
  deriving DecidableEq, Repr

/-- What pyelftools makes of the file: the entry point, and what the two iterations give, one item or
    failure after the other. -/
structure ElfFile where
  opened : Except ElfError Nat
  sections : List (Except ElfError ElfSection)
  segments : List (Except ElfError ElfSegment)

/-- How the entropy engine fails: with what `_scan` catches, or with another exception. -/
inductive EntropyError where
  /-- `FileAccessError` and `UnsupportedFileTypeError`. -/
  | analysis (text : PyStr)
  | raised (e : Exc)

structure Probe (F : Type) where
  stat : Except StatError Metadata
  /-- `_read_head`, with the text of its `FileAccessError`. -/
  head : Except PyStr Bytes
  /-- `from_file` of libmagic, where there is one; the text is that of the exception. -/
  magic : Option (Except PyStr PyStr)
  /-- Where pyelftools is installed. -/
  elf : Option ElfFile
  pe : Except Pe.Fault Pe.Source
  entropy : Except EntropyError (Entropy.EntropyReport F)

/-- What does not depend on the file: `str.lower` and `str.casefold`, `mimetypes.guess_type`, and whether
    `os.name` is not `nt`. -/
structure Platform where
  chars : Pe.CharTable
  casefold : PyStr → PyStr
  guessType : PyStr → Option PyStr
  posix : Bool

/-! ## The result -/

/-- An item of `errors` or `warnings`. -/
structure Problem where
  code : PyStr
  message : PyStr
  deriving DecidableEq, Repr

inductive Consistency where
  | unknown
  | noExtension
  | consistent
  | inconsistent
  deriving DecidableEq, Repr

def Consistency.text : Consistency → PyStr
  | .unknown => py "UNKNOWN"
  | .noExtension => py "NO_EXTENSION"
  | .consistent => py "CONSISTENT"
  | .inconsistent => py "INCONSISTENT"

/-- The dictionary `analyze_elf` fills. -/
structure ElfData where
  isElf : Bool
  valid : Option Bool := none
  entryPoint : Option Nat := none
  sections : List ElfSection := []
  segments : List ElfSegment := []
  indicators : List PyStr := []

/-- `StaticScanResult` with all its fields but the duration. -/
structure ScanReport (F : Type) where
  filepath : PyStr
  status : ScanStatus := .error
  fileSize : Option Nat := none
  mimeType : PyStr := py "unknown"
  mimeSource : PyStr := py "unavailable"
  extension : PyStr := []
  mimeExtensionConsistency : Consistency := .unknown
  expectedMimeTypes : List PyStr := []
  elf : ElfData := { isElf := false }
  permissionDetails : Mapping F := []
  permissionAnomalies : List PyStr := []
  pathContext : Mapping F := []
  pathIndicators : List PyStr := []
  entropyReport : Option (Entropy.EntropyReport F) := none
  warnings : List Problem := []
  errors : List Problem := []
  pe : Pe.PEAnalysis := {}
  fileIdentity : Mapping F := []
  identitySource : PyStr := py "UNVERIFIED_PATH"

/-! ## MIME types -/

def elfMagic : Bytes := [0x7F, 0x45, 0x4C, 0x46]

def peMimeTypes : List PyStr :=
  ["application/vnd.microsoft.portable-executable", "application/x-dosexec",
    "application/x-msdownload", "application/x-ms-dos-executable"].map py

def elfMimeTypes : List PyStr :=
  ["application/x-executable", "application/x-pie-executable", "application/x-sharedlib"].map py

/-- `_EXTENSION_MIME_RULES.get(extension, ())`. -/
def extensionMimeRules (extension : PyStr) : List PyStr :=
  ([("txt", ["text/plain"]), ("csv", ["text/csv", "text/plain"]),
    ("json", ["application/json", "text/plain"]),
    ("xml", ["application/xml", "text/xml", "text/plain"]), ("pdf", ["application/pdf"]),
    ("png", ["image/png"]), ("jpg", ["image/jpeg"]), ("jpeg", ["image/jpeg"]), ("gif", ["image/gif"]),
    ("zip", ["application/zip", "application/x-zip"]),
    ("gz", ["application/gzip", "application/x-gzip"]), ("py", ["text/x-python", "text/plain"]),
    ("sh", ["text/x-shellscript", "text/plain", "application/x-shellscript"]),
    ("so", ["application/x-sharedlib", "application/x-pie-executable"])].find? fun rule =>
      py ("." ++ rule.1) = extension).elim
    (if extension = py ".exe" ∨ extension = py ".dll" then peMimeTypes
      else if extension = py ".elf" then elfMimeTypes else [])
    fun rule => rule.2.map py

def obviousContentExtensions : List PyStr :=
  [".txt", ".csv", ".json", ".xml", ".pdf", ".png", ".jpg", ".jpeg", ".gif", ".zip", ".gz", ".py",
    ".sh"].map py

def peDisguiseExtensions : List PyStr :=
  obviousContentExtensions ++ [".doc", ".docx", ".xls", ".xlsx", ".ppt", ".pptx", ".rtf", ".mp3",
    ".mp4", ".wav", ".html", ".htm"].map py

/-- `path.suffix`: from the last dot on, which is neither the first nor the last character. -/
def suffix (path : PurePath) : PyStr :=
  let name := Ebpf.KernelHeaders.nameOf path
  let stem := name.reverse.dropWhile (· ≠ 46)
  let extension := (name.reverse.takeWhile (· ≠ 46)).reverse
  if stem.length ≤ 1 ∨ extension = [] then [] else 46 :: extension

/-- The signatures of `_fallback_mime`. -/
def signatures : List (Bytes × PyStr) :=
  [(elfMagic, py "application/x-executable"), (Pe.mz, py "application/x-dosexec"),
    ([0x25, 0x50, 0x44, 0x46], py "application/pdf"),
    ([0x89, 0x50, 0x4E, 0x47, 0x0D, 0x0A, 0x1A, 0x0A], py "image/png"),
    ([0xFF, 0xD8, 0xFF], py "image/jpeg"), ([0x50, 0x4B, 0x03, 0x04], py "application/zip"),
    ([0x1F, 0x8B], py "application/gzip")]

/-- `_fallback_mime`: the type and its source. -/
def fallbackMime (platform : Platform) (path : PurePath) (head : Bytes) : PyStr × PyStr :=
  match signatures.find? fun s => s.1.isPrefixOf head with
  | some s => (s.2, py "signature-fallback")
  | none =>
      match (platform.guessType (Ebpf.KernelHeaders.nameOf path)).filter (· ≠ []) with
      | some guessed => (guessed, py "extension-fallback")
      | none =>
          if head ≠ [] ∧ 0 ∉ head ∧ (decodeUtf8 head).isSome then
            (py "text/plain", py "utf8-fallback")
          else (py "application/octet-stream", py "generic-fallback")

/-- `detect_mime`: the type, its source and the warnings. -/
def detectMime (platform : Platform) (magic : Option (Except PyStr PyStr)) (context : PurePath)
    (head : Bytes) : (PyStr × PyStr) × List Problem :=
  match magic with
  | some (.ok detected) =>
      if detected ≠ [] then ((detected, py "libmagic"), [])
      else (fallbackMime platform context head, [])
  | some (.error text) =>
      (fallbackMime platform context head, [⟨py "LIBMAGIC_FAILED", py "libmagic failed: " ++ text⟩])
  | none =>
      (fallbackMime platform context head, [⟨py "LIBMAGIC_UNAVAILABLE",
        py "python-magic/libmagic unavailable; signature fallback used"⟩])

/-- `evaluate_mime_extension`. -/
def evaluateMimeExtension (extension mimeType : PyStr) (isElf isPe : Bool) :
    Consistency × List PyStr :=
  if extension = [] then (.noExtension, [])
  else if isPe ∧ extension ∈ peDisguiseExtensions then (.inconsistent, peMimeTypes)
  else if isElf ∧ extension ∈ obviousContentExtensions then (.inconsistent, elfMimeTypes)
  else
    let expected := extensionMimeRules extension
    if expected = [] then (.unknown, expected)
    else if mimeType ∈ expected then (.consistent, expected)
    else (.inconsistent, expected)

/-! ## Permissions and path -/

/-- The indicators of `analyze_permissions`. -/
def permissionIndicators (posix : Bool) (m : Metadata) : List PyStr :=
  (if posix && m.has 0o4000 then [py "SUID_BIT_SET"] else []) ++
  (if posix && m.has 0o2000 then [py "SGID_BIT_SET"] else []) ++
  (if posix && m.has 0o2 then [py "WORLD_WRITABLE"] else []) ++
  (if posix && m.has 0o2 && m.has 0o1 then [py "WORLD_WRITABLE_AND_EXECUTABLE"] else [])

/-- The details of `analyze_permissions`. -/
def permissionDetails (posix : Bool) (m : Metadata) : Mapping F :=
  [(py "mode_octal", .str m.modeOctal), (py "posix_mode_semantics", .bool posix),
    (py "owner_uid", .int m.uid), (py "owner_gid", .int m.gid),
    (py "suid", .bool (posix && m.has 0o4000)), (py "sgid", .bool (posix && m.has 0o2000)),
    (py "owner_executable", .bool (m.has 0o100)), (py "group_executable", .bool (m.has 0o10)),
    (py "world_executable", .bool (m.has 0o1)), (py "world_writable", .bool (posix && m.has 0o2))]

/-- `s == root or s.startswith(root + "/")`. -/
def isUnder (s : PyStr) (root : String) : Bool :=
  decide (s = py root) || (py root ++ py "/").isPrefixOf s

/-- The components that make a path hidden. -/
def hiddenComponents (path : PurePath) : List PyStr :=
  path.parts.filter fun part => (py ".").isPrefixOf part && part ∉ [py ".", py ".."]

/-- `location_categories`. -/
def locationCategories (platform : Platform) (path : PurePath) : List PyStr :=
  let s := path.text
  (if isUnder s "/tmp" then [py "TEMPORARY_DIRECTORY"] else []) ++
  (if isUnder s "/var/tmp" then [py "TEMPORARY_DIRECTORY"] else []) ++
  (if path.parts.any fun part => platform.casefold part ∈ [py "downloads", py "indirilenler"] then
    [py "DOWNLOAD_DIRECTORY"] else []) ++
  (if isUnder s "/media" || isUnder s "/run/media" || isUnder s "/mnt" then
    [py "REMOVABLE_OR_MOUNTED_MEDIA"] else [])

/-- The indicators of `analyze_path_context`, for an absolute path. -/
def contextIndicators (platform : Platform) (path : PurePath) : List PyStr :=
  locationCategories platform path ++
    if hiddenComponents path ≠ [] then [py "HIDDEN_PATH_COMPONENT"] else []

def pathContext (platform : Platform) (path : PurePath) : Mapping F :=
  [(py "absolute_path", .str path.text), (py "hidden", .bool (!(hiddenComponents path).isEmpty)),
    (py "hidden_components", .arr ((hiddenComponents path).map .str)),
    (py "location_categories", .arr ((locationCategories platform path).map .str))]

/-! ## ELF -/

/-- `bool(flags & bit)`. -/
def flagged (flags bit : Nat) : Bool := flags &&& bit != 0

def ElfSection.writableExecutable (row : ElfSection) : Bool := flagged row.flags 1 && flagged row.flags 4

def ElfSegment.writableExecutable (row : ElfSegment) : Bool := flagged row.flags 2 && flagged row.flags 1

/-- The loop over the sections, from an index on. -/
def readSections : List (Except ElfError ElfSection) → Nat → ElfData → ElfData × Option ElfError
  | [], _, data => (data, none)
  | .error e :: _, _, data => (data, some e)
  | .ok row :: rest, index, data =>
      readSections rest (index + 1)
        { data with
          sections := data.sections ++ [row]
          indicators := data.indicators ++
            if row.writableExecutable then
              [py "WRITABLE_EXECUTABLE_SECTION:" ++ if row.name ≠ [] then row.name else natText index]
            else [] }

/-- The loop over the segments. -/
def readSegments : List (Except ElfError ElfSegment) → Nat → ElfData → ElfData × Option ElfError
  | [], _, data => (data, none)
  | .error e :: _, _, data => (data, some e)
  | .ok row :: rest, index, data =>
      readSegments rest (index + 1)
        { data with
          segments := data.segments ++ [row]
          indicators := data.indicators ++
            if row.writableExecutable then [py "WRITABLE_EXECUTABLE_SEGMENT:" ++ natText index]
            else [] }

/-- The body of the `try` of `analyze_elf`: how far it gets, and what it raises. -/
def parseElf (file : ElfFile) (data : ElfData) : ElfData × Option ElfError :=
  match file.opened with
  | .error e => (data, some e)
  | .ok entry =>
      let data := { data with
        valid := some true
        entryPoint := some entry
        indicators := data.indicators ++ if entry = 0 then [py "ELF_ENTRY_POINT_ZERO"] else [] }
      match readSections file.sections 0 data with
      | (data, some e) => (data, some e)
      | (data, none) =>
          match readSegments file.segments 0 data with
          | (data, some e) => (data, some e)
          | (data, none) =>
              ({ data with
                indicators := data.indicators ++
                  if data.sections = [] then [py "ELF_NO_SECTION_HEADERS"] else [] }, none)

def ElfError.problem : ElfError → Problem
  | .os text => ⟨py "ELF_READ_ERROR", text⟩
  | .malformed text => ⟨py "MALFORMED_ELF", text⟩
  | .other typeName text => ⟨py "ELF_ANALYSIS_FAILED", typeName ++ py ": " ++ text⟩

/-- `analyze_elf`: the data, the warnings and the errors. -/
def analyzeElf (elf : Option ElfFile) (head : Bytes) : ElfData × List Problem × List Problem :=
  let data : ElfData := { isElf := elfMagic.isPrefixOf head }
  if !data.isElf then (data, [], [])
  else
    match elf with
    | none => (data, [⟨py "PYELFTOOLS_UNAVAILABLE",
        py "pyelftools unavailable; only ELF magic was verified"⟩], [])
    | some file =>
        match parseElf file data with
        | (data, none) => (data, [], [])
        | (data, some e) => ({ data with valid := some false }, [], [e.problem])

/-! ## The scan -/

/-- `file_identity`. -/
def identityOf (m : Metadata) : Mapping F :=
  [(py "device", .int m.device), (py "inode", .int m.inode), (py "size", .int m.size),
    (py "mtime_ns", .int m.mtimeNs)]

/-- `BlockEntropy` in `asdict`. -/
def blockItems (b : Entropy.BlockEntropy F) : Mapping F :=
  [(py "index", .int b.index), (py "offset", .int b.offset), (py "size", .int b.size),
    (py "entropy", .float b.entropy),
    (py "above_provisional_threshold", .bool b.aboveProvisionalThreshold)]

/-- `entropy.to_dict()` without `reported_blocks`. -/
def entropyItems (report : Entropy.EntropyReport F) : Mapping F :=
  [(py "file_size", .int report.fileSize), (py "bytes_analyzed", .int report.bytesAnalyzed),
    (py "whole_file_entropy", .float report.wholeFileEntropy),
    (py "block_size", .int report.blockSize), (py "block_count", .int report.blockCount),
    (py "high_entropy_block_count", .int report.highEntropyBlockCount),
    (py "high_entropy_block_ratio", .float report.highEntropyBlockRatio),
    (py "min_block_entropy", .float report.minBlockEntropy),
    (py "max_block_entropy", .float report.maxBlockEntropy),
    (py "mean_block_entropy", .float report.meanBlockEntropy),
    (py "provisional_high_entropy_threshold", .float report.provisionalHighEntropyThreshold),
    (py "threshold_status", .str report.thresholdStatus),
    (py "blocks_truncated", .bool report.blocksTruncated),
    (py "report_sample_stride", .int report.reportSampleStride)]

/-- `entropy_summary`. -/
def ScanReport.entropySummary (r : ScanReport F) : Mapping F := r.entropyReport.elim [] entropyItems

/-- `block_entropies`. -/
def ScanReport.blockEntropies (r : ScanReport F) : List (Json F) :=
  r.entropyReport.elim [] fun report => report.reportedBlocks.map fun b => .obj (blockItems b)

/-- The summary says that the inspection was not completed. -/
def peIncomplete (status : Pe.Status) : Bool :=
  status == .incomplete || status == .unsupported || status == .error

/-- A result that ends with an error. -/
def ScanReport.stopped (r : ScanReport F) (code : String) (message : PyStr) : ScanReport F :=
  { r with errors := r.errors ++ [⟨py code, message⟩] }

/-- The part of `_scan` after the stat of a regular file. -/
def scanContent (platform : Platform) (probe : Probe F) (context : PurePath) (r : ScanReport F) :
    Except Exc (ScanReport F) :=
  match probe.head with
  | .error text => .ok (r.stopped "FILE_READ_FAILED" text)
  | .ok head =>
      let mime := detectMime platform probe.magic context head
      let elf := analyzeElf probe.elf head
      let pe : Pe.PEAnalysis := (Pe.analyzePe platform.chars probe.pe (some head)).result
      let judged := evaluateMimeExtension r.extension mime.1.1 elf.1.isElf pe.isPe
      let r := { r with
        mimeType := mime.1.1
        mimeSource := mime.1.2
        elf := elf.1
        pe := pe
        warnings := r.warnings ++ mime.2 ++ elf.2.1 ++
          pe.warnings.map fun (w : Pe.Warning) => (⟨w.code, w.message⟩ : Problem)
        errors := r.errors ++ elf.2.2
        mimeExtensionConsistency := judged.1
        expectedMimeTypes := judged.2
        pathIndicators := r.pathIndicators ++
          if judged.1 = Consistency.inconsistent then [py "MIME_EXTENSION_INCONSISTENT"] else [] }
      let finish (r : ScanReport F) : ScanReport F :=
        { r with status := if r.errors = [] ∧ peIncomplete r.pe.summary.status = false then .ok
            else .partialScan }
      match probe.entropy with
      | .ok report => .ok (finish { r with entropyReport := some report })
      | .error (.analysis text) => .ok (finish (r.stopped "ENTROPY_ANALYSIS_FAILED" text))
      | .error (.raised e) => .error e

/-- `_scan`; `trustedOpenFd` tells a descriptor of fanotify from a path. -/
def scan (platform : Platform) (probe : Probe F) (context : PurePath) (trustedOpenFd : Bool) :
    Except Exc (ScanReport F) :=
  let r : ScanReport F :=
    { filepath := context.text, extension := platform.chars.lower (suffix context) }
  match probe.stat with
  | .error .fileNotFound => .ok (r.stopped "FILE_NOT_FOUND" (py "file does not exist: " ++ context.text))
  | .error .permission => .ok (r.stopped "STAT_PERMISSION_DENIED" (py "cannot stat: " ++ context.text))
  | .error (.os text) => .ok (r.stopped "STAT_FAILED" text)
  | .error (.raised e) => .error e
  | .ok m =>
      if !trustedOpenFd && m.isSymlink then
        .ok (r.stopped "SYMLINK_NOT_SCANNED" (py "symbolic-link targets are not followed"))
      else if !m.isRegular then
        .ok (r.stopped "NOT_REGULAR_FILE" (py "target is not a regular file"))
      else
        scanContent platform probe context
          { r with
            fileSize := some m.size
            fileIdentity := identityOf m
            identitySource := if trustedOpenFd then py "OPEN_DESCRIPTOR" else py "PATH_LSTAT"
            permissionDetails := permissionDetails platform.posix m
            permissionAnomalies := permissionIndicators platform.posix m
            pathContext := pathContext platform context
            pathIndicators := contextIndicators platform context }

end Elyra.Analyzer
