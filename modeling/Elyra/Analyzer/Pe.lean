import Elyra.Python.After
import Elyra.Python.Json
import Elyra.Python.Ranges
import Elyra.Python.Struct
import Elyra.Python.Utf8Replace

set_option autoImplicit false

/-! # PE headers

`analyze_pe`: it reads the DOS, COFF and optional headers and the section table of a file, and checks that
the ranges they declare lie in the file and do not overlap. What it has written to its result before a
check fails stays there. -/

namespace Elyra.Analyzer.Pe

open Elyra.Python Elyra.Ranges

def maxPeHeaderOffset : Nat := 1024 * 1024
def maxOptionalHeaderSize : Nat := 4096
def maxSections : Nat := 96
def sectionHeaderSize : Nat := 40
def maxInspectionBytes : Nat := 64 + 4 + 20 + maxOptionalHeaderSize + maxSections * 40

/-! ## The result -/

/-- `summary["status"]` -/
inductive Status where
  | notPe
  | incomplete
  | complete
  | unsupported
  | error
  deriving DecidableEq, Repr

/-- The code of an `_InspectionIssue`. -/
inductive Code where
  | dosHeaderTruncated
  | headerOutOfBounds
  | headerOffsetLimit
  | signatureTruncated
  | signatureMissing
  | coffHeaderTruncated
  | noSections
  | sectionCountLimit
  | optionalHeaderTruncated
  | optionalHeaderLimit
  | optionalHeaderUnsupported
  | dataDirectoriesTruncated
  | sectionTableTruncated
  | headersSizeInvalid
  | sectionRawRangeInvalid
  | sectionRawOverlap
  | certificateRangeInvalid
  | certificateSectionOverlap
  | readLimit
  deriving DecidableEq, Repr

def Code.text : Code → PyStr
  | .dosHeaderTruncated => py "PE_DOS_HEADER_TRUNCATED"
  | .headerOutOfBounds => py "PE_HEADER_OUT_OF_BOUNDS"
  | .headerOffsetLimit => py "PE_HEADER_OFFSET_LIMIT"
  | .signatureTruncated => py "PE_SIGNATURE_TRUNCATED"
  | .signatureMissing => py "PE_SIGNATURE_MISSING"
  | .coffHeaderTruncated => py "PE_COFF_HEADER_TRUNCATED"
  | .noSections => py "PE_NO_SECTIONS"
  | .sectionCountLimit => py "PE_SECTION_COUNT_LIMIT"
  | .optionalHeaderTruncated => py "PE_OPTIONAL_HEADER_TRUNCATED"
  | .optionalHeaderLimit => py "PE_OPTIONAL_HEADER_LIMIT"
  | .optionalHeaderUnsupported => py "PE_OPTIONAL_HEADER_UNSUPPORTED"
  | .dataDirectoriesTruncated => py "PE_DATA_DIRECTORIES_TRUNCATED"
  | .sectionTableTruncated => py "PE_SECTION_TABLE_TRUNCATED"
  | .headersSizeInvalid => py "PE_HEADERS_SIZE_INVALID"
  | .sectionRawRangeInvalid => py "PE_SECTION_RAW_RANGE_INVALID"
  | .sectionRawOverlap => py "PE_SECTION_RAW_OVERLAP"
  | .certificateRangeInvalid => py "PE_CERTIFICATE_RANGE_INVALID"
  | .certificateSectionOverlap => py "PE_CERTIFICATE_SECTION_OVERLAP"
  | .readLimit => py "PE_READ_LIMIT"

def u16 (data : Bytes) (offset : Nat) : Nat := ofLE (slice data offset 2)
def u32 (data : Bytes) (offset : Nat) : Nat := ofLE (slice data offset 4)

/-- The fields of `struct.unpack("<HHIIIHH", coff)` that are used. -/
structure CoffHeader where
  machine : Nat
  count : Nat
  timestamp : Nat
  optionalSize : Nat
  characteristics : Nat
  deriving DecidableEq, Repr

def CoffHeader.ofBytes (coff : Bytes) : CoffHeader where
  machine := u16 coff 0
  count := u16 coff 2
  timestamp := u32 coff 4
  optionalSize := u16 coff 16
  characteristics := u16 coff 18

/-- `summary["format"]` -/
inductive Format where
  | pe32
  | pe32Plus
  deriving DecidableEq, Repr

/-- `directory_base` -/
def Format.directoryBase : Format → Nat
  | .pe32 => 96
  | .pe32Plus => 112

/-- Where `image_base` is: its offset and its size. -/
def Format.imageBaseField : Format → Nat × Nat
  | .pe32 => (28, 4)
  | .pe32Plus => (24, 8)

structure OptionalHeader where
  format : Format
  entryPoint : Nat
  imageBase : Nat
  sectionAlignment : Nat
  fileAlignment : Nat
  imageSize : Nat
  headersSize : Nat
  subsystem : Nat
  dllCharacteristics : Nat
  directories : Nat
  deriving DecidableEq, Repr

def formatOf (magic : Nat) : Format := if magic = 0x20B then .pe32Plus else .pe32

def OptionalHeader.ofBytes (optional : Bytes) : OptionalHeader :=
  let format := formatOf (u16 optional 0)
  { format := format
    entryPoint := u32 optional 16
    imageBase := ofLE (slice optional format.imageBaseField.1 format.imageBaseField.2)
    sectionAlignment := u32 optional 32
    fileAlignment := u32 optional 36
    imageSize := u32 optional 56
    headersSize := u32 optional 60
    subsystem := u16 optional 68
    dllCharacteristics := u16 optional 70
    directories := u32 optional (format.directoryBase - 4) }

/-- A data directory: its two fields. -/
structure Directory where
  offset : Nat
  size : Nat
  deriving DecidableEq, Repr

def Directory.ofBytes (optional : Bytes) (offset : Nat) : Directory :=
  ⟨u32 optional offset, u32 optional (offset + 4)⟩

/-- `directory_values.get(index, (0, 0))` -/
def directory (directories : List Directory) (index : Nat) : Directory :=
  (directories[index]?).getD ⟨0, 0⟩

/-- A row of the section table. -/
structure SectionHeader where
  name : Bytes
  virtualSize : Nat
  virtualAddress : Nat
  rawSize : Nat
  rawOffset : Nat
  flags : Nat
  deriving DecidableEq, Repr

def SectionHeader.ofBytes (row : Bytes) : SectionHeader where
  name := (slice row 0 8).takeWhile (· != 0)
  virtualSize := u32 row 8
  virtualAddress := u32 row 12
  rawSize := u32 row 16
  rawOffset := u32 row 20
  flags := u32 row 36

def SectionHeader.writable (row : SectionHeader) : Bool := (row.flags &&& 0x80000000) != 0

def SectionHeader.executable (row : SectionHeader) : Bool := (row.flags &&& 0x20000000) != 0

/-- `result.sections[index]`. Its flags are `readable`, `writable` and `executable` of the row. -/
structure Section where
  index : Nat
  name : PyStr
  row : SectionHeader
  deriving DecidableEq, Repr

/-- `result.summary`. A field that is not there yet is `none`; a header stands for the fields that one
    `update` copies from it. -/
structure Summary where
  status : Status := .notPe
  candidate : Bool := false
  scope : PyStr := py "headers_and_sections"
  signatureVerification : PyStr := py "NOT_PERFORMED"
  bytesRead : Nat := 0
  peHeaderOffset : Option Nat := none
  coff : Option CoffHeader := none
  optionalHeaderMagic : Option Nat := none
  format : Option Format := none
  optional : Option OptionalHeader := none
  importDirectoryPresent : Option Bool := none
  exportDirectoryPresent : Option Bool := none
  debugDirectoryPresent : Option Bool := none
  certificateTablePresent : Option Bool := none
  certificateTable : Option Directory := none
  packerIndicators : Option (List PyStr) := none
  deriving DecidableEq, Repr

/-- An item of `warnings`. -/
structure Warning where
  code : PyStr
  message : PyStr
  deriving DecidableEq, Repr

structure PEAnalysis where
  isPe : Bool := false
  valid : Option Bool := none
  summary : Summary := {}
  sections : List Section := []
  anomalies : List PyStr := []
  warnings : List Warning := []
  deriving DecidableEq, Repr

/-! ## Reading -/

/-- `_InspectionIssue` -/
structure Issue where
  code : Code
  message : PyStr
  unsupported : Bool
  deriving DecidableEq, Repr

/-- What `analyze_pe` catches besides; the text is `str(exc)`. -/
inductive Fault where
  | osError (text : PyStr)
  | valueError (text : PyStr)
  | structError (text : PyStr)
  deriving DecidableEq, Repr

def Fault.text : Fault → PyStr
  | .osError text => text
  | .valueError text => text
  | .structError text => text

/-- What ends an inspection early. -/
inductive Stop where
  | issue (issue : Issue)
  | raised (fault : Fault)
  deriving DecidableEq, Repr

/-- The open file: `st_size`, and what a read of so many bytes at an offset gives. -/
structure Source where
  size : Nat
  read : Nat → Nat → Except Fault Bytes

/-- A regular file of constant content. -/
def Source.ofBytes (data : Bytes) : Source where
  size := data.length
  read := fun offset size => .ok (slice data offset size)

/-- The result so far, and the reads of the stream: offset and number of bytes. -/
structure Inspection where
  result : PEAnalysis := {}
  reads : List (Nat × Nat) := []
  deriving DecidableEq, Repr

abbrev Inspect := EStateM Stop Inspection

/-- `if bad: raise issue` -/
def raiseIf (bad : Prop) [Decidable bad] (code : Code) (message : PyStr) (unsupported : Bool := false) :
    Inspect Unit :=
  if bad then throw (.issue ⟨code, message, unsupported⟩) else pure ()

/-- A change of the result. -/
def record (f : PEAnalysis → PEAnalysis) : Inspect Unit :=
  modify fun s => { s with result := f s.result }

/-- A change of the summary. -/
def summarize (f : Summary → Summary) : Inspect Unit :=
  record fun result => { result with summary := f result.summary }

/-- The check of `struct.unpack_from` for a format of `size` bytes. -/
def requires (data : Bytes) (offset size : Nat) : Inspect Unit :=
  if offset + size ≤ data.length then pure ()
  else throw (.raised (.structError (py "unpack_from requires a buffer of at least " ++
    natText (offset + size) ++ py " bytes for unpacking " ++ natText size ++ py " bytes at offset " ++
    natText offset ++ py " (actual buffer size is " ++ natText data.length ++ py ")")))

/-- `_Reader.read` -/
def read (source : Source) (offset size : Nat) (code : Code) : Inspect Bytes := do
  raiseIf (source.size < offset + size) code (py "Declared PE structure exceeds the file bounds")
  raiseIf (maxInspectionBytes < (← get).result.summary.bytesRead + size) .readLimit
    (py "PE inspection read limit reached") true
  modify fun s => { s with reads := s.reads ++ [(offset, size)] }
  match source.read offset size with
  | .error fault => throw (.raised fault)
  | .ok data =>
      summarize fun summary => { summary with bytesRead := summary.bytesRead + data.length }
      raiseIf (data.length ≠ size) code (py "PE structure was truncated while reading")
      return data

/-! ## The headers -/

/-- `b"MZ"` -/
def mz : Bytes := [0x4D, 0x5A]

/-- The DOS header; `e_lfanew`, or nothing if the file is no candidate. -/
def readDos (source : Source) : Inspect (Option Nat) := do
  let dos ← read source 0 (min 64 source.size) .dosHeaderTruncated
  if ¬mz <+: dos then return none
  summarize fun summary => { summary with status := .incomplete, candidate := true }
  raiseIf (dos.length < 64) .dosHeaderTruncated (py "MZ header does not contain e_lfanew")
  requires dos 0x3C 4
  let peOffset := u32 dos 0x3C
  summarize fun summary => { summary with peHeaderOffset := some peOffset }
  raiseIf (peOffset < 64 ∨ source.size < peOffset + 24) .headerOutOfBounds
    (py "e_lfanew does not identify an in-file PE header")
  raiseIf (maxPeHeaderOffset < peOffset) .headerOffsetLimit
    (py "PE header offset exceeds the inspection limit") true
  return some peOffset

/-- `b"PE\x00\x00"` -/
def peSignature : Bytes := [0x50, 0x45, 0, 0]

/-- The signature and the COFF header. -/
def readCoff (source : Source) (peOffset : Nat) : Inspect CoffHeader := do
  let signature ← read source peOffset 4 .signatureTruncated
  raiseIf (signature ≠ peSignature) .signatureMissing (py "MZ candidate does not have the PE signature")
  record fun result => { result with isPe := true }
  let bytes ← read source (peOffset + 4) 20 .coffHeaderTruncated
  requires bytes 0 20
  let coff := CoffHeader.ofBytes bytes
  summarize fun summary => { summary with coff := some coff }
  raiseIf (coff.count = 0) .noSections (py "PE image declares no sections")
  raiseIf (maxSections < coff.count) .sectionCountLimit
    (py "Section count exceeds the supported limit of 96") true
  raiseIf (coff.optionalSize < 2) .optionalHeaderTruncated
    (py "PE image has no complete optional-header magic")
  raiseIf (maxOptionalHeaderSize < coff.optionalSize) .optionalHeaderLimit
    (py "Optional header exceeds the inspection limit") true
  return coff

/-- The bytes of the optional header, and its fields. -/
def readOptional (source : Source) (peOffset : Nat) (coff : CoffHeader) :
    Inspect (Bytes × OptionalHeader) := do
  let bytes ← read source (peOffset + 24) coff.optionalSize .optionalHeaderTruncated
  requires bytes 0 2
  let magic := u16 bytes 0
  summarize fun summary => { summary with optionalHeaderMagic := some magic }
  raiseIf (magic ≠ 0x10B ∧ magic ≠ 0x20B) .optionalHeaderUnsupported
    (py "Only PE32 and PE32+ optional headers are supported") true
  let format := formatOf magic
  summarize fun summary => { summary with format := some format }
  raiseIf (bytes.length < format.directoryBase) .optionalHeaderTruncated
    (py "Optional header lacks required Windows fields")
  requires bytes 16 4
  requires bytes format.imageBaseField.1 format.imageBaseField.2
  requires bytes 32 8
  requires bytes 56 8
  requires bytes 68 4
  requires bytes (format.directoryBase - 4) 4
  let header := OptionalHeader.ofBytes bytes
  summarize fun summary => { summary with optional := some header }
  raiseIf ((coff.optionalSize - format.directoryBase) / 8 < header.directories) .dataDirectoriesTruncated
    (py "Directory count exceeds the declared optional header")
  return (bytes, header)

/-- `directory_values`: the first sixteen directories at most. -/
def readDirectories (optional : Bytes) (header : OptionalHeader) : Inspect (List Directory) := do
  let directories ← (List.range (min header.directories 16)).foldlM (fun values index => do
    let offset := header.format.directoryBase + index * 8
    requires optional offset 8
    return values ++ [Directory.ofBytes optional offset]) []
  let certificate := directory directories 4
  summarize fun summary => { summary with
    importDirectoryPresent := some ((directory directories 1).size != 0)
    exportDirectoryPresent := some ((directory directories 0).size != 0)
    debugDirectoryPresent := some ((directory directories 6).size != 0)
    certificateTablePresent := some (certificate.offset != 0 && certificate.size != 0)
    packerIndicators := some [] }
  return directories

/-- The section table. -/
def readTable (source : Source) (peOffset : Nat) (coff : CoffHeader) (header : OptionalHeader) :
    Inspect Bytes := do
  let tableOffset := peOffset + 24 + coff.optionalSize
  let tableEnd := tableOffset + coff.count * sectionHeaderSize
  raiseIf (source.size < tableEnd) .sectionTableTruncated (py "Section table exceeds the file bounds")
  raiseIf (header.headersSize < tableEnd ∨ source.size < header.headersSize) .headersSizeInvalid
    (py "SizeOfHeaders does not contain the section table within the file")
  read source tableOffset (coff.count * sectionHeaderSize) .sectionTableTruncated

/-! ## Sections and certificate -/

/-- What Unicode says of characters: `str.isprintable` and `str.lower`. -/
structure CharTable where
  isPrintable : Nat → Bool
  lower : PyStr → PyStr

/-- The name of a section as it is shown. -/
def displayName (chars : CharTable) (row : SectionHeader) : PyStr :=
  (decodeReplace row.name).map fun c => if chars.isPrintable c then c else 63

def packerNames : List PyStr :=
  ["upx0", "upx1", "upx2", ".aspack", ".adata", ".themida", ".vmp0", ".vmp1"].map py

/-- What a section adds to `packer_indicators`. -/
def packerIndicators (chars : CharTable) (index : Nat) (name : PyStr) (row : SectionHeader) :
    List PyStr :=
  (if chars.lower name ∈ packerNames then [py "SUSPICIOUS_SECTION_NAME:" ++ name] else []) ++
    if row.rawSize ≠ 0 ∧ row.rawSize * 8 < row.virtualSize then
      [py "HIGH_VIRTUAL_RAW_RATIO:" ++ natText index]
    else []

/-- An item of `raw_ranges`. -/
structure RawRange extends Range Nat where
  index : Nat
  deriving DecidableEq

/-- What a section adds to `raw_ranges`. -/
def SectionHeader.rawRange (row : SectionHeader) (index : Nat) : Option RawRange :=
  if h : row.rawSize ≠ 0 then
    some ⟨⟨row.rawOffset, row.rawOffset + row.rawSize, by omega⟩, index⟩
  else none

/-- A turn of the loop over the section table. -/
def readSection (chars : CharTable) (source : Source) (header : OptionalHeader) (table : Bytes)
    (ranges : List RawRange) (index : Nat) : Inspect (List RawRange) := do
  let bytes := slice table (index * sectionHeaderSize) sectionHeaderSize
  requires bytes 8 16
  requires bytes 36 4
  let row := SectionHeader.ofBytes bytes
  let name := displayName chars row
  record fun result => { result with sections := result.sections ++ [⟨index, name, row⟩] }
  summarize fun summary => { summary with
    packerIndicators := summary.packerIndicators.map (· ++ packerIndicators chars index name row) }
  raiseIf (row.rawSize ≠ 0 ∧
      (row.rawOffset < header.headersSize ∨ source.size < row.rawOffset + row.rawSize))
    .sectionRawRangeInvalid
    (py "Section " ++ natText index ++ py " raw data is outside the file or overlaps headers")
  record fun result =>
    if row.writable && row.executable then
      { result with
        anomalies := result.anomalies ++ [py "PE_WRITABLE_EXECUTABLE_SECTION:" ++ natText index] }
    else result
  return ranges ++ (row.rawRange index).toList

/-- The order of tuples. -/
def RawRange.le (r s : RawRange) : Bool :=
  decide (r.lower < s.lower) || (decide (r.lower = s.lower) &&
    (decide (r.upper < s.upper) || (decide (r.upper = s.upper) && decide (r.index ≤ s.index))))

/-- The loop over `zip(raw_ranges, raw_ranges[1:])`. -/
def checkNeighbours : List RawRange → Inspect Unit
  | previous :: current :: rest => do
      raiseIf (current.lower < previous.upper) .sectionRawOverlap
        (py "Raw data ranges of PE sections overlap")
      checkNeighbours (current :: rest)
  | _ => pure ()

/-- The check after `raw_ranges.sort()`. -/
def checkOverlap (ranges : List RawRange) : Inspect Unit :=
  checkNeighbours (ranges.mergeSort RawRange.le)

def checkCertificate (source : Source) (header : OptionalHeader) (certificate : Directory)
    (ranges : List RawRange) : Inspect Unit := do
  summarize fun summary => { summary with
    certificateTablePresent := some (certificate.offset != 0 && certificate.size != 0)
    certificateTable := some certificate }
  if certificate.offset ≠ 0 ∨ certificate.size ≠ 0 then
    raiseIf (certificate.offset = 0 ∨ certificate.size = 0 ∨ certificate.offset < header.headersSize ∨
        source.size < certificate.offset + certificate.size) .certificateRangeInvalid
      (py "Certificate directory has an incomplete or out-of-file range")
    raiseIf (∃ r ∈ ranges, certificate.offset < r.upper ∧ r.lower < certificate.offset + certificate.size)
      .certificateSectionOverlap (py "Certificate directory overlaps raw section data")

/-- What has been read when the sections are looked at. -/
structure Headers where
  coff : CoffHeader
  optional : OptionalHeader
  directories : List Directory
  table : Bytes

/-- `_inspect`, up to the section table; nothing if the file is no candidate. -/
def readHeaders (source : Source) : Inspect (Option Headers) := do
  match ← readDos source with
  | none => return none
  | some peOffset =>
      let coff ← readCoff source peOffset
      let (bytes, optional) ← readOptional source peOffset coff
      let directories ← readDirectories bytes optional
      let table ← readTable source peOffset coff optional
      return some ⟨coff, optional, directories, table⟩

/-- `_inspect`, after the section table. -/
def inspectSections (chars : CharTable) (source : Source) (headers : Headers) : Inspect Unit := do
  let ranges ← (List.range headers.coff.count).foldlM
    (readSection chars source headers.optional headers.table) []
  checkOverlap ranges
  checkCertificate source headers.optional (directory headers.directories 4) ranges
  record fun result => { result with
    valid := some true, summary := { result.summary with status := .complete } }

/-- `_inspect` -/
def inspect (chars : CharTable) (source : Source) : Inspect Unit := do
  match ← readHeaders source with
  | none => return
  | some headers => inspectSections chars source headers

/-! ## `analyze_pe` -/

/-- The `except` clause for an issue. -/
def Inspection.failed (s : Inspection) (issue : Issue) : Inspection :=
  { s with result := { s.result with
      valid := if issue.unsupported then none else some false
      summary := { s.result.summary with
        status := if issue.unsupported then .unsupported else .incomplete }
      anomalies := s.result.anomalies ++ [issue.code.text]
      warnings := s.result.warnings ++ [⟨issue.code.text, issue.message⟩] } }

/-- The `except` clause for everything else that is caught. -/
def Inspection.unreadable (s : Inspection) (fault : Fault) : Inspection :=
  { s with result := { s.result with
      valid := none
      summary := { s.result.summary with status := .error }
      warnings := s.result.warnings ++ [⟨py "PE_READ_ERROR", fault.text⟩] } }

/-- How `_inspect` ends, from a new result. -/
def run (chars : CharTable) (source : Source) : EStateM.Result Stop Inspection Unit :=
  inspect chars source {}

/-- `analyze_pe`: the result, and what has been read for it. `opened` is the `open` and the `fstat`. -/
def analyzePe (chars : CharTable) (opened : Except Fault Source) (head : Option Bytes) : Inspection :=
  if ∃ bytes ∈ head, ¬mz <+: bytes then {}
  else
    match opened with
    | .error fault => Inspection.unreadable {} fault
    | .ok source =>
        match run chars source with
        | .ok () s => s
        | .error (.issue issue) s => s.failed issue
        | .error (.raised fault) s => s.unreadable fault

end Elyra.Analyzer.Pe
