import Elyra.Python.Blocks
import Elyra.Python.Json
import Elyra.Python.TrueDivision

set_option autoImplicit false

/-! # Streaming entropy

`EntropyEngine._analyze_stream`: a file is read in pieces, what has been read is cut into blocks, and the
piece of a block that is left is carried over to the next read. The entropy itself is given (`Shannon`);
what is modelled is which octets it is taken of, and what of it is reported. -/

namespace Elyra.Analyzer.Entropy

open Elyra.Python Elyra.Blocks

variable {F : Type}

/-- The entropy of octets and of a histogram, and the floats it comes in. -/
structure Shannon (F : Type) where
  /-- `shannon_entropy` -/
  ofBytes : Bytes → F
  /-- The entropy of the counts above zero, of so many octets. -/
  ofHistogram : (UInt8 → Int) → Nat → F
  zero : F
  eight : F
  le : F → F → Bool
  lt : F → F → Bool
  /-- `round(x, 6)` -/
  round : F → F
  /-- `sum(xs)` -/
  sum : List F → F
  /-- `x / n` -/
  divide : F → Nat → F
  /-- `m / n` -/
  ratio : Nat → Nat → F

/-! ## The configuration -/

structure EntropyConfig (F : Type) where
  blockSize : Int
  readChunkSize : Int
  provisionalHighEntropyThreshold : F
  maxReportedBlocks : Int

/-- `__post_init__`; the failure is `InvalidEntropyConfiguration`. -/
def EntropyConfig.postInit (h : Shannon F) (c : EntropyConfig F) : Except PyStr Unit :=
  if c.blockSize ≤ 0 then .error (py "block_size must be greater than zero")
  else if c.readChunkSize < c.blockSize then
    .error (py "read_chunk_size must be greater than or equal to block_size")
  else if c.readChunkSize % c.blockSize ≠ 0 then
    .error (py "read_chunk_size must be an exact multiple of block_size")
  else if ¬(h.le h.zero c.provisionalHighEntropyThreshold ∧ h.le c.provisionalHighEntropyThreshold h.eight)
  then .error (py "provisional_high_entropy_threshold must be between 0 and 8")
  else if c.maxReportedBlocks ≤ 0 then .error (py "max_reported_blocks must be greater than zero")
  else .ok ()

/-- The sizes as they are counted with. -/
def EntropyConfig.block (c : EntropyConfig F) : Nat := c.blockSize.toNat

def EntropyConfig.maximum (c : EntropyConfig F) : Nat := c.maxReportedBlocks.toNat

/-! ## The report -/

structure BlockEntropy (F : Type) where
  index : Nat
  offset : Nat
  size : Nat
  entropy : F
  aboveProvisionalThreshold : Bool
  deriving DecidableEq

structure EntropyReport (F : Type) where
  fileSize : Nat
  bytesAnalyzed : Nat
  wholeFileEntropy : F
  blockSize : Nat
  blockCount : Nat
  highEntropyBlockCount : Nat
  highEntropyBlockRatio : F
  minBlockEntropy : F
  maxBlockEntropy : F
  meanBlockEntropy : F
  provisionalHighEntropyThreshold : F
  thresholdStatus : PyStr := py "PROVISIONAL_NOT_CALIBRATED"
  reportedBlocks : List (BlockEntropy F)
  blocksTruncated : Bool
  reportSampleStride : Nat

/-! ## Reading -/

/-- What `stream.read` does. -/
inductive Read where
  | data (chunk : Bytes)
  | permissionError
  | osError (text : PyStr)

inductive StreamError where
  | fileAccessError (text : PyStr)
  | overflowError
  deriving DecidableEq, Repr

/-- `math.ceil(a / b)`; `none` is the `OverflowError`. -/
def ceilTrueDiv (a b : Nat) : Option Nat := (trueDiv a b).map Dyadic.ceil

/-- `expected_blocks` -/
def expectedBlocks (fileSize block : Nat) : Option Nat :=
  if fileSize ≠ 0 then ceilTrueDiv fileSize block else some 0

/-- `sample_stride` -/
def sampleStride (fileSize block maximum : Nat) : Option Nat := do
  let expected ← expectedBlocks fileSize block
  let stride ← ceilTrueDiv expected maximum
  return max 1 stride

/-- Addition in `np.int64`. -/
def wrap64 (n : Int) : Int := (n + 2 ^ 63) % 2 ^ 64 - 2 ^ 63

/-- The variables of `_analyze_stream`. -/
structure Scan (F : Type) where
  histogram : UInt8 → Int := fun _ => 0
  entropies : List F := []
  reported : List (BlockEntropy F) := []
  bytesAnalyzed : Nat := 0
  highCount : Nat := 0
  blockIndex : Nat := 0
  carry : Bytes := []

/-- What is reported of a block. -/
def entry (h : Shannon F) (c : EntropyConfig F) (index : Nat) (block : Bytes) : BlockEntropy F where
  index := index
  offset := index * c.block
  size := block.length
  entropy := h.round (h.ofBytes block)
  aboveProvisionalThreshold := h.le c.provisionalHighEntropyThreshold (h.ofBytes block)

/-- The body of the loop over the blocks, which also stands behind the loop over the reads. -/
def Scan.addBlock (h : Shannon F) (c : EntropyConfig F) (stride : Nat) (s : Scan F) (block : Bytes) :
    Scan F :=
  let entropy := h.ofBytes block
  { s with
    entropies := s.entropies ++ [entropy]
    highCount := s.highCount + if h.le c.provisionalHighEntropyThreshold entropy then 1 else 0
    reported :=
      if s.blockIndex % stride = 0 then s.reported ++ [entry h c s.blockIndex block] else s.reported
    blockIndex := s.blockIndex + 1 }

/-- A turn of the loop over the reads. The complete blocks of the buffer are
    `buffer[start : start + block_size]` for `start` in `range(0, complete_size, block_size)`, and the rest
    is `buffer[complete_size:]`. -/
def Scan.addChunk (h : Shannon F) (c : EntropyConfig F) (stride : Nat) (s : Scan F) (chunk : Bytes) :
    Scan F :=
  let buffer := s.carry ++ chunk
  let s := { s with
    bytesAnalyzed := s.bytesAnalyzed + chunk.length
    histogram := fun b => wrap64 (s.histogram b + wrap64 (chunk.count b)) }
  { (complete c.block buffer).foldl (Scan.addBlock h c stride) s with carry := rest c.block buffer }

/-- The loop over the reads; when they are over, `read` returns `b""`. -/
def readAll (h : Shannon F) (c : EntropyConfig F) (stride : Nat) (label : PyStr) :
    List Read → Scan F → Except StreamError (Scan F)
  | [], s => .ok s
  | .data [] :: _, s => .ok s
  | .data chunk :: reads, s => readAll h c stride label reads (s.addChunk h c stride chunk)
  | .permissionError :: _, _ =>
      .error (.fileAccessError (py "permission denied while reading file: " ++ label))
  | .osError text :: _, _ =>
      .error (.fileAccessError (py "cannot read file " ++ label ++ py ": " ++ text))

/-- The `with` statement: the reads, and the block that is left. -/
def scanStream (h : Shannon F) (c : EntropyConfig F) (stride : Nat) (label : PyStr) (reads : List Read) :
    Except StreamError (Scan F) := do
  let s ← readAll h c stride label reads {}
  return if s.carry ≠ [] then s.addBlock h c stride s.carry else s

/-- `min(xs, default=0.0)` -/
def smallest (h : Shannon F) : List F → F
  | [] => h.zero
  | x :: xs => xs.foldl (fun least y => if h.lt y least then y else least) x

/-- `max(xs, default=0.0)` -/
def greatest (h : Shannon F) : List F → F
  | [] => h.zero
  | x :: xs => xs.foldl (fun most y => if h.lt most y then y else most) x

/-- The report on a finished scan. -/
def Scan.report (h : Shannon F) (c : EntropyConfig F) (stride fileSize : Nat) (s : Scan F) :
    EntropyReport F where
  fileSize := fileSize
  bytesAnalyzed := s.bytesAnalyzed
  wholeFileEntropy := h.round
    (if s.bytesAnalyzed ≠ 0 then h.ofHistogram s.histogram s.bytesAnalyzed else h.zero)
  blockSize := c.block
  blockCount := s.entropies.length
  highEntropyBlockCount := s.highCount
  highEntropyBlockRatio := h.round
    (if s.entropies.length ≠ 0 then h.ratio s.highCount s.entropies.length else h.zero)
  minBlockEntropy := h.round (smallest h s.entropies)
  maxBlockEntropy := h.round (greatest h s.entropies)
  meanBlockEntropy := h.round
    (if s.entropies.length ≠ 0 then h.divide (h.sum s.entropies) s.entropies.length else h.zero)
  provisionalHighEntropyThreshold := c.provisionalHighEntropyThreshold
  reportedBlocks := s.reported
  blocksTruncated := decide (s.reported.length < s.entropies.length)
  reportSampleStride := stride

/-- `_analyze_stream` -/
def analyzeStream (h : Shannon F) (c : EntropyConfig F) (reads : List Read) (fileSize : Nat)
    (label : PyStr) : Except StreamError (EntropyReport F) :=
  match sampleStride fileSize c.block c.maximum with
  | none => .error .overflowError
  | some stride => do
      let s ← scanStream h c stride label reads
      if s.bytesAnalyzed ≠ fileSize then
        throw (.fileAccessError (py "file changed or was incompletely read: expected " ++ natText fileSize ++
          py " bytes, read " ++ natText s.bytesAnalyzed))
      return s.report h c stride fileSize

end Elyra.Analyzer.Entropy
