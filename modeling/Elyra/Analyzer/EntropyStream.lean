import Elyra.Analyzer.Entropy

set_option autoImplicit false

/-! # Streaming against the whole file

What the report says of the whole string (`Agrees`), whatever the pieces it was read in. It does unless
the stride of the sample, which is computed in floats, or the counts of the histogram, which have 64 bits,
are too small for the file (`streams_iff`); below `2 ** 53` octets they are not (`fits_of_lt`). -/

namespace Elyra.Analyzer.Entropy

open Elyra.Python Elyra.Blocks

variable {F : Type} {h : Shannon F} {c : EntropyConfig F} {stride : Nat} {label : PyStr}

/-! ## The definition on the whole string -/

def high (h : Shannon F) (c : EntropyConfig F) (block : Bytes) : Bool :=
  h.le c.provisionalHighEntropyThreshold (h.ofBytes block)

/-- The report on every block whose index is a multiple of the stride. -/
def sampled (h : Shannon F) (c : EntropyConfig F) (stride : Nat) (bs : List Bytes) : List (BlockEntropy F) :=
  (bs.zipIdx.filter fun b => b.2 % stride = 0).map fun b => entry h c b.2 b.1

/-- A finished scan and its report are those of the whole string. -/
structure Agrees (h : Shannon F) (c : EntropyConfig F) (data : Bytes) (s : Scan F) (r : EntropyReport F) :
    Prop where
  histogram : ∀ b, s.histogram b = data.count b
  entropies : s.entropies = (blocks c.block data).map h.ofBytes
  fileSize : r.fileSize = data.length ∧ r.bytesAnalyzed = data.length ∧ r.blockSize = c.block
  wholeFile : r.wholeFileEntropy = h.round
    (if data = [] then h.zero else h.ofHistogram (fun b => data.count b) data.length)
  blockCount : r.blockCount = data.length ⌈/⌉ c.block
  highCount : r.highEntropyBlockCount = ((blocks c.block data).filter (high h c)).length
  extremes : r.minBlockEntropy = h.round (smallest h ((blocks c.block data).map h.ofBytes)) ∧
    r.maxBlockEntropy = h.round (greatest h ((blocks c.block data).map h.ofBytes))
  reported : r.reportedBlocks = sampled h c r.reportSampleStride (blocks c.block data)
  atMost : r.reportedBlocks.length ≤ c.maximum
  truncated : r.blocksTruncated = true ↔
    ∃ index < data.length ⌈/⌉ c.block, ∀ b ∈ r.reportedBlocks, b.index ≠ index

/-- What is to hold of a stream: the report on all of it, or the error that it is not all of it. -/
def Streams (h : Shannon F) (c : EntropyConfig F) (chunks : List Bytes) (fileSize : Nat) (label : PyStr) :
    Prop :=
  if chunks.flatten.length = fileSize then
    ∃ s r, scanStream h c r.reportSampleStride label (chunks.map .data) = .ok s ∧
      analyzeStream h c (chunks.map .data) fileSize label = .ok r ∧ Agrees h c chunks.flatten s r
  else ∃ text, analyzeStream h c (chunks.map .data) fileSize label = .error (.fileAccessError text)

/-- The floats and the 64 bits are enough for the file. -/
def Fits (c : EntropyConfig F) (data : Bytes) (fileSize : Nat) : Prop :=
  ∃ stride, sampleStride fileSize c.block c.maximum = some stride ∧
    (data.length = fileSize →
      (∀ b, data.count b < 2 ^ 63) ∧ data.length ⌈/⌉ c.block ≤ stride * c.maximum)

/-! ## Blocks and chunks -/

/-- What has been seen of the blocks so far. -/
structure Counted (h : Shannon F) (c : EntropyConfig F) (stride : Nat) (bs : List Bytes) (s : Scan F) :
    Prop where
  entropies : s.entropies = bs.map h.ofBytes
  highCount : s.highCount = (bs.filter (high h c)).length
  reported : s.reported = sampled h c stride bs
  blockIndex : s.blockIndex = bs.length

theorem Counted.addBlock {bs : List Bytes} {s : Scan F} (hs : Counted h c stride bs s) (block : Bytes) :
    Counted h c stride (bs ++ [block]) (s.addBlock h c stride block) := by
  constructor
  · simp only [Scan.addBlock, hs.entropies, List.map_append, List.map_singleton]
  · simp only [Scan.addBlock, hs.highCount, List.filter_append, List.length_append, List.filter_singleton,
      high, Bool.cond_eq_ite]
    split <;> rfl
  · simp only [Scan.addBlock, hs.reported, hs.blockIndex, sampled, List.zipIdx_append, List.zipIdx_singleton,
      List.filter_append, List.map_append, List.filter_singleton, Bool.cond_eq_ite, decide_eq_true_eq,
      Nat.zero_add]
    split
    · rfl
    · rw [List.map_nil, List.append_nil]
  · simp only [Scan.addBlock, hs.blockIndex, List.length_append, List.length_singleton]

theorem Counted.addBlocks {bs bs' : List Bytes} {s : Scan F} (hs : Counted h c stride bs s) :
    Counted h c stride (bs ++ bs') (bs'.foldl (Scan.addBlock h c stride) s) := by
  induction bs' generalizing bs s with
  | nil => rwa [List.append_nil]
  | cons block bs' ih =>
      rw [List.append_cons]
      exact ih (hs.addBlock block)

/-- The blocks do not touch the counts of octets. -/
theorem addBlocks_frame (bs : List Bytes) (s : Scan F) :
    (bs.foldl (Scan.addBlock h c stride) s).histogram = s.histogram ∧
      (bs.foldl (Scan.addBlock h c stride) s).bytesAnalyzed = s.bytesAnalyzed := by
  induction bs generalizing s with
  | nil => exact ⟨rfl, rfl⟩
  | cons block bs ih => exact ih (s.addBlock h c stride block)

theorem wrap64_add (m n : Int) : wrap64 (wrap64 m + wrap64 n) = wrap64 (m + n) := by
  unfold wrap64
  omega

theorem wrap64_eq_iff {n : Nat} : wrap64 n = n ↔ n < 2 ^ 63 := by
  unfold wrap64
  omega

/-- The scan after so many octets, whatever the chunks they came in. -/
structure Consumed (h : Shannon F) (c : EntropyConfig F) (stride : Nat) (data : Bytes) (s : Scan F) :
    Prop where
  counted : Counted h c stride (complete c.block data) s
  histogram : ∀ b, s.histogram b = wrap64 (data.count b)
  bytes : s.bytesAnalyzed = data.length
  carry : s.carry = rest c.block data

theorem consumed_start : Consumed h c stride [] {} where
  counted := by
    have hnone : complete c.block ([] : Bytes) = [] := by simp [complete]
    rw [hnone]
    exact ⟨rfl, rfl, rfl, rfl⟩
  histogram := fun _ => (wrap64_eq_iff.2 (by simp)).symm
  bytes := rfl
  carry := by simp [rest]

theorem Consumed.addChunk {data : Bytes} {s : Scan F} (hblock : 0 < c.block)
    (hs : Consumed h c stride data s) (chunk : Bytes) :
    Consumed h c stride (data ++ chunk) (s.addChunk h c stride chunk) where
  counted := by
    rw [complete_append hblock, ← hs.carry]
    have hs' : Counted h c stride (complete c.block data) { s with
        bytesAnalyzed := s.bytesAnalyzed + chunk.length
        histogram := fun b => wrap64 (s.histogram b + wrap64 (chunk.count b)) } :=
      ⟨hs.counted.entropies, hs.counted.highCount, hs.counted.reported, hs.counted.blockIndex⟩
    obtain ⟨hentropies, hhigh, hreported, hindex⟩ :=
      hs'.addBlocks
    exact ⟨hentropies, hhigh, hreported, hindex⟩
  histogram := by
    intro b
    simp only [Scan.addChunk, (addBlocks_frame _ _).1, hs.histogram, wrap64_add, List.count_append,
      Nat.cast_add]
  bytes := by
    simp only [Scan.addChunk, (addBlocks_frame _ _).2, hs.bytes, List.length_append]
  carry := by
    change rest c.block (s.carry ++ chunk) = _
    rw [hs.carry, ← rest_append hblock]

theorem Consumed.addChunks {data : Bytes} {s : Scan F} (hblock : 0 < c.block)
    (hs : Consumed h c stride data s) (chunks : List Bytes) :
    Consumed h c stride (data ++ chunks.flatten) (chunks.foldl (Scan.addChunk h c stride) s) := by
  induction chunks generalizing data s with
  | nil => rwa [List.flatten_nil, List.append_nil]
  | cons chunk chunks ih =>
      rw [List.flatten_cons, ← List.append_assoc]
      exact ih (hs.addChunk hblock chunk)

/-- Reads that give something are all taken. -/
theorem readAll_data {chunks : List Bytes} (hne : ∀ chunk ∈ chunks, chunk ≠ []) (s : Scan F) :
    readAll h c stride label (chunks.map .data) s =
      .ok (chunks.foldl (Scan.addChunk h c stride) s) := by
  induction chunks generalizing s with
  | nil => rfl
  | cons chunk chunks ih =>
      obtain ⟨hchunk, hchunks⟩ := List.forall_mem_cons.1 hne
      rw [List.map_cons, readAll, ih hchunks, List.foldl_cons]
      exact hchunk

/-- A finished scan of the whole string. -/
structure Scanned (h : Shannon F) (c : EntropyConfig F) (stride : Nat) (data : Bytes) (s : Scan F) :
    Prop where
  counted : Counted h c stride (blocks c.block data) s
  histogram : ∀ b, s.histogram b = wrap64 (data.count b)
  bytes : s.bytesAnalyzed = data.length

theorem scanStream_data (hblock : 0 < c.block) {chunks : List Bytes}
    (hne : ∀ chunk ∈ chunks, chunk ≠ []) (stride : Nat) (label : PyStr) :
    ∃ s, scanStream h c stride label (chunks.map .data) = .ok s ∧
      Scanned h c stride chunks.flatten s := by
  have hstart : Consumed h c stride [] {} := consumed_start
  have hs := hstart.addChunks hblock chunks
  rw [List.nil_append] at hs
  unfold scanStream
  rw [readAll_data hne]
  refine ⟨_, rfl, ?_⟩
  rw [hs.carry]
  split
  · next hrest =>
    have hblocks : blocks c.block chunks.flatten =
        complete c.block chunks.flatten ++ [rest c.block chunks.flatten] := by
      rw [blocks_eq hblock, if_neg hrest]
    exact ⟨hblocks ▸ hs.counted.addBlock _, hs.histogram, hs.bytes⟩
  · next hrest =>
    have hblocks : blocks c.block chunks.flatten = complete c.block chunks.flatten := by
      rw [blocks_eq hblock, if_pos (not_not.1 hrest), List.append_nil]
    exact ⟨hblocks ▸ hs.counted, hs.histogram, hs.bytes⟩

/-! ## The sample -/

/-- As many blocks are reported as there are multiples of the stride. -/
theorem sampled_length (hstride : 0 < stride) (bs : List Bytes) :
    (sampled h c stride bs).length = bs.length ⌈/⌉ stride := by
  induction bs using List.reverseRecOn with
  | nil => simp [sampled]
  | append_singleton bs block ih =>
      have hceil : (bs.length + 1) ⌈/⌉ stride = bs.length / stride + 1 := by
        rw [Nat.ceilDiv_eq_add_pred_div, Nat.add_right_comm, Nat.add_sub_cancel, Nat.add_div_right _ hstride]
      rw [sampled, List.length_map] at ih ⊢
      rw [List.zipIdx_append, List.filter_append, List.length_append, ih, List.length_append,
        List.length_singleton, hceil]
      by_cases hmod : bs.length % stride = 0
      · rw [ceilDiv_of_dvd hstride hmod]
        simp [hmod]
      · rw [ceilDiv_of_not_dvd hstride hmod]
        simp [hmod]

/-- A block is reported exactly if its index is a multiple of the stride. -/
theorem mem_sampled {bs : List Bytes} {b : BlockEntropy F} :
    b ∈ sampled h c stride bs ↔ ∃ index block, bs[index]? = some block ∧ index % stride = 0 ∧
      b = entry h c index block := by
  simp only [sampled, List.mem_map, List.mem_filter, decide_eq_true_eq, Prod.exists,
    List.mk_mem_zipIdx_iff_getElem?]
  constructor
  · rintro ⟨block, index, ⟨hget, hmod⟩, rfl⟩
    exact ⟨index, block, hget, hmod, rfl⟩
  · rintro ⟨index, block, hget, hmod, rfl⟩
    exact ⟨block, index, ⟨hget, hmod⟩, rfl⟩

/-- The report is shorter exactly if some block is not in it. -/
theorem sampled_lt_iff (bs : List Bytes) :
    (sampled h c stride bs).length < bs.length ↔
      ∃ index < bs.length, ∀ b ∈ sampled h c stride bs, b.index ≠ index := by
  have hiff : (sampled h c stride bs).length < bs.length ↔ ∃ index < bs.length, index % stride ≠ 0 := by
    rw [sampled, List.length_map]
    conv_lhs => rw [← List.length_zipIdx (l := bs), List.length_filter_lt_length_iff_exists]
    constructor
    · rintro ⟨⟨block, index⟩, hmem, hmod⟩
      rw [List.mk_mem_zipIdx_iff_getElem?] at hmem
      exact ⟨index, (List.getElem?_eq_some_iff.1 hmem).1, by simpa using hmod⟩
    · rintro ⟨index, hindex, hmod⟩
      refine ⟨(bs[index], index), ?_, by simpa using hmod⟩
      rw [List.mk_mem_zipIdx_iff_getElem?, List.getElem?_eq_getElem hindex]
  rw [hiff]
  refine exists_congr fun index => and_congr_right fun hindex => ?_
  constructor
  · intro hmod b hb heq
    obtain ⟨i, block, -, hi, rfl⟩ := mem_sampled.1 hb
    exact hmod (heq ▸ hi)
  · intro hne hmod
    exact hne _ (mem_sampled.2 ⟨index, _, List.getElem?_eq_getElem hindex, hmod, rfl⟩) rfl

/-! ## Streams -/

structure Accepted (c : EntropyConfig F) : Prop where
  block : 0 < c.block
  maximum : 0 < c.maximum

theorem EntropyConfig.accepted (hc : c.postInit h = .ok ()) : Accepted c := by
  unfold EntropyConfig.postInit at hc
  split_ifs at hc with hblock hchunk hmultiple hthreshold hmaximum
  constructor
  · unfold EntropyConfig.block
    omega
  · unfold EntropyConfig.maximum
    omega

theorem sampleStride_pos {fileSize block maximum : Nat} (hs : sampleStride fileSize block maximum = some stride) :
    0 < stride := by
  unfold sampleStride at hs
  obtain ⟨expected, -, hs⟩ := Option.bind_eq_some_iff.1 hs
  obtain ⟨quotient, -, hs⟩ := Option.bind_eq_some_iff.1 hs
  obtain rfl := Option.some.inj hs
  omega

/-- A finished scan reports on the whole string exactly if the histogram and the sample fit. -/
theorem Scanned.agrees_iff {data : Bytes} {s : Scan F} (hs : Scanned h c stride data s)
    (hstride : 0 < stride) :
    Agrees h c data s (s.report h c stride data.length) ↔
      (∀ b, data.count b < 2 ^ 63) ∧ data.length ⌈/⌉ c.block ≤ stride * c.maximum := by
  have hlength : s.entropies.length = data.length ⌈/⌉ c.block := by
    rw [hs.counted.entropies, List.length_map, blocks_length]
  have hreported : s.reported.length ≤ c.maximum ↔ data.length ⌈/⌉ c.block ≤ stride * c.maximum := by
    rw [hs.counted.reported, sampled_length hstride, blocks_length]
    exact ceilDiv_le_iff_le_mul hstride
  constructor
  · intro hagrees
    refine ⟨fun b => ?_, hreported.1 hagrees.atMost⟩
    exact wrap64_eq_iff.1 ((hs.histogram b).symm.trans (hagrees.histogram b))
  · rintro ⟨hcounts, hmaximum⟩
    have hhistogram : s.histogram = fun b => (data.count b : Int) :=
      funext fun b => (hs.histogram b).trans (wrap64_eq_iff.2 (hcounts b))
    refine ⟨fun b => congrFun hhistogram b, hs.counted.entropies, ⟨rfl, hs.bytes, rfl⟩, ?_, hlength,
      hs.counted.highCount, ?_, hs.counted.reported, hreported.2 hmaximum, ?_⟩
    · simp only [Scan.report, hs.bytes, hhistogram, ne_eq, List.length_eq_zero_iff, ite_not]
    · simp only [Scan.report, hs.counted.entropies, and_self]
    · simp only [Scan.report, decide_eq_true_eq, hlength, hs.counted.reported]
      have hblocks : (blocks c.block data).length = data.length ⌈/⌉ c.block := blocks_length
      rw [← hblocks]
      exact sampled_lt_iff _

theorem analyzeStream_ok {chunks : List Bytes} {fileSize : Nat} {s : Scan F}
    (hstride : sampleStride fileSize c.block c.maximum = some stride)
    (hscan : scanStream h c stride label (chunks.map .data) = .ok s) (hsize : s.bytesAnalyzed = fileSize) :
    analyzeStream h c (chunks.map .data) fileSize label = .ok (s.report h c stride fileSize) := by
  rw [analyzeStream, hstride]
  simp only [hscan, bind, Except.bind, hsize, ne_eq, not_true_eq_false, if_false]
  rfl

/-- Every sequence of reads gives the report on the whole string, or the error that the file has changed,
    exactly if the floats and the 64 bits are enough. -/
theorem streams_iff (hc : c.postInit h = .ok ()) {chunks : List Bytes}
    (hne : ∀ chunk ∈ chunks, chunk ≠ []) (fileSize : Nat) (label : PyStr) :
    Streams h c chunks fileSize label ↔ Fits c chunks.flatten fileSize := by
  have hblock := (EntropyConfig.accepted hc).block
  cases hstride : sampleStride fileSize c.block c.maximum with
  | none =>
      have hanalyze : analyzeStream h c (chunks.map .data) fileSize label = .error .overflowError := by
        rw [analyzeStream, hstride]
      refine iff_of_false ?_ fun ⟨_, hfits, _⟩ => nomatch hstride.symm.trans hfits
      unfold Streams
      rw [hanalyze]
      split
      · rintro ⟨_, _, -, hok, -⟩
        cases hok
      · rintro ⟨_, herror⟩
        cases herror
  | some stride =>
      obtain ⟨s, hscan, hs⟩ := scanStream_data (h := h) hblock hne stride label
      have hfits : Fits c chunks.flatten fileSize ↔ (chunks.flatten.length = fileSize →
          (∀ b, chunks.flatten.count b < 2 ^ 63) ∧
            chunks.flatten.length ⌈/⌉ c.block ≤ stride * c.maximum) := by
        constructor
        · rintro ⟨stride', hstride', hfits⟩
          obtain rfl := Option.some.inj (hstride.symm.trans hstride')
          exact hfits
        · exact fun hfits => ⟨stride, hstride, hfits⟩
      rw [hfits]
      unfold Streams
      split
      · next hsize =>
        have hanalyze := analyzeStream_ok hstride hscan (hs.bytes.trans hsize)
        rw [forall_prop_of_true hsize, ← hs.agrees_iff (sampleStride_pos hstride), hsize]
        constructor
        · rintro ⟨s', r, hscan', hok, hagrees⟩
          obtain rfl := Except.ok.inj (hanalyze.symm.trans hok)
          obtain rfl := Except.ok.inj (hscan.symm.trans hscan')
          exact hagrees
        · exact fun hagrees => ⟨s, _, hscan, hanalyze, hagrees⟩
      · next hsize =>
        refine iff_of_true ?_ fun h => absurd h hsize
        rw [analyzeStream, hstride]
        simp only [hscan, bind, Except.bind, hs.bytes, ne_eq, hsize, not_false_eq_true, if_true]
        exact ⟨_, rfl⟩

/-! ## Files that fit -/

/-- Below `2 ** 53`, the quotient rounded up is not above the exact one, and it is the exact one unless
    that is one. -/
theorem ceilTrueDiv_of_lt {a b : Nat} (hb : 0 < b) (ha : a < 2 ^ 53) :
    ∃ n, ceilTrueDiv a b = some n ∧ n ≤ max 1 (a ⌈/⌉ b) ∧ (b ≤ a → n = a ⌈/⌉ b) := by
  by_cases hab : b ≤ a
  · exact ⟨_, ceil_trueDiv hb hab ha, le_max_right _ _, fun _ => rfl⟩
  · obtain ⟨n, hn, hdiv⟩ := ceil_trueDiv_le_one (Nat.not_le.1 hab)
    exact ⟨n, hdiv, le_max_of_le_left hn, fun h => absurd h hab⟩

/-- Below `2 ** 53` octets, the floats and the 64 bits are enough. -/
theorem fits_of_lt (hc : Accepted c) {data : Bytes} {fileSize : Nat} (hsize : fileSize < 2 ^ 53) :
    Fits c data fileSize := by
  obtain ⟨expected, hexpected, hle, hexact⟩ : ∃ n, expectedBlocks fileSize c.block = some n ∧
      n ≤ max 1 (fileSize ⌈/⌉ c.block) ∧ (c.block ≤ fileSize → n = fileSize ⌈/⌉ c.block) := by
    unfold expectedBlocks
    split
    · exact ceilTrueDiv_of_lt hc.block hsize
    · next hzero =>
      refine ⟨0, rfl, Nat.zero_le _, fun hblock => ?_⟩
      rw [not_not.1 hzero, zero_ceilDiv]
  have hblocks : fileSize ⌈/⌉ c.block ≤ fileSize :=
    (ceilDiv_le_iff_le_mul hc.block).2 (Nat.le_mul_of_pos_left _ hc.block)
  obtain ⟨quotient, hquotient, -, hstride⟩ :=
    ceilTrueDiv_of_lt (a := expected) hc.maximum (by omega)
  refine ⟨max 1 quotient, ?_, ?_⟩
  · simp only [sampleStride, hexpected, hquotient, bind, Option.bind, pure]
  intro hlength
  refine ⟨fun b => ?_, ?_⟩
  · have := List.count_le_length (a := b) (l := data)
    omega
  rw [hlength]
  have hmaximum := hc.maximum
  by_cases hblock : c.block ≤ fileSize
  · have hexpected := hexact hblock
    by_cases hmany : c.maximum ≤ expected
    · calc fileSize ⌈/⌉ c.block = expected := hexpected.symm
        _ ≤ c.maximum * (expected ⌈/⌉ c.maximum) := le_mul_ceilDiv hmaximum
        _ = quotient * c.maximum := by rw [hstride hmany, Nat.mul_comm]
        _ ≤ max 1 quotient * c.maximum := Nat.mul_le_mul_right _ (le_max_right _ _)
    · calc fileSize ⌈/⌉ c.block ≤ 1 * c.maximum := by omega
        _ ≤ max 1 quotient * c.maximum := Nat.mul_le_mul_right _ (le_max_left _ _)
  · calc fileSize ⌈/⌉ c.block ≤ 1 := (ceilDiv_le_iff_le_mul hc.block).2 (by omega)
      _ ≤ 1 * c.maximum := by omega
      _ ≤ max 1 quotient * c.maximum := Nat.mul_le_mul_right _ (le_max_left _ _)

/-! ## A file that does not fit -/

/-- Entropy of no interest. -/
def flat : Shannon Nat where
  ofBytes := fun _ => 0
  ofHistogram := fun _ _ => 0
  zero := 0
  eight := 8
  le := fun x y => decide (x ≤ y)
  lt := fun x y => decide (x < y)
  round := id
  sum := List.sum
  divide := fun x n => x / n
  ratio := fun m n => m / n

/-- The configuration by default. -/
def defaultConfig : EntropyConfig Nat where
  blockSize := 4096
  readChunkSize := 1024 * 1024
  provisionalHighEntropyThreshold := 7
  maxReportedBlocks := 4096

example : defaultConfig.postInit flat = .ok () := by decide +kernel

/-- `m` reads of `n` octets each, and one of a single octet. -/
def evenReads (m n : Nat) : List Bytes := List.replicate m (List.replicate n 0) ++ [[0]]

theorem evenReads_length (m n : Nat) : (evenReads m n).flatten.length = m * n + 1 := by
  simp [evenReads]

theorem evenReads_ne_nil (m : Nat) {n : Nat} (hn : n ≠ 0) : ∀ chunk ∈ evenReads m n, chunk ≠ [] := by
  intro chunk hmem
  obtain hmem | hmem := List.mem_append.1 hmem
  · rw [List.eq_of_mem_replicate hmem]
    exact fun h => hn ((List.replicate_eq_nil_iff 0).1 h)
  · rw [List.mem_singleton.1 hmem]
    exact List.cons_ne_nil _ _

/-- A file of `2 ** 53 + 1` octets: its `2 ** 41 + 1` blocks are expected to be `2 ** 41`, and one block too
    many is reported. -/
theorem huge_report_too_long :
    ∃ r, analyzeStream flat defaultConfig ((evenReads (2 ^ 33) (2 ^ 20)).map .data) (2 ^ 53 + 1) [] = .ok r ∧
      r.reportSampleStride = 2 ^ 29 ∧ r.reportedBlocks.length = 4097 ∧
      ¬Streams flat defaultConfig (evenReads (2 ^ 33) (2 ^ 20)) (2 ^ 53 + 1) [] := by
  have hstride : sampleStride (2 ^ 53 + 1) defaultConfig.block defaultConfig.maximum = some (2 ^ 29) := by
    decide +kernel
  have hblock : 0 < defaultConfig.block := by decide
  have hlength : (evenReads (2 ^ 33) (2 ^ 20)).flatten.length = 2 ^ 53 + 1 := by
    rw [evenReads_length]
    norm_num
  have hne := evenReads_ne_nil (2 ^ 33) (n := 2 ^ 20) (by decide)
  obtain ⟨s, hscan, hs⟩ := scanStream_data (h := flat) hblock hne (2 ^ 29) []
  have hanalyze := analyzeStream_ok hstride hscan (hs.bytes.trans hlength)
  have hreported : s.reported.length = 4097 := by
    rw [hs.counted.reported, sampled_length (by decide), blocks_length, hlength]
    decide +kernel
  refine ⟨_, hanalyze, rfl, hreported, ?_⟩
  unfold Streams
  rw [if_pos hlength]
  rintro ⟨_, r, -, hok, hagrees⟩
  obtain rfl := Except.ok.inj (hanalyze.symm.trans hok)
  have hmost : s.reported.length ≤ 4096 := hagrees.atMost
  omega

/-- Blocks of two octets, two of them at most reported. -/
def smallConfig : EntropyConfig Nat where
  blockSize := 2
  readChunkSize := 4
  provisionalHighEntropyThreshold := 7
  maxReportedBlocks := 2

theorem smallConfig_ok : smallConfig.postInit flat = .ok () := by decide +kernel

/-- A file of seven octets in three reads: of its four blocks every second one is reported. -/
theorem short_streams : Streams flat smallConfig [[1, 2, 3], [4, 5, 6], [7]] 7 [] ∧
    sampleStride 7 smallConfig.block smallConfig.maximum = some 2 :=
  ⟨(streams_iff smallConfig_ok (by decide) 7 []).2
    (fits_of_lt (EntropyConfig.accepted smallConfig_ok) (by decide)), by decide +kernel⟩

end Elyra.Analyzer.Entropy
