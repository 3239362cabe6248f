import Elyra.Analyzer.PeHeaders

set_option autoImplicit false

/-! # What `valid` means

The ranges that the section table and the certificate directory declare, as sets of offsets (`Sound`).
`_inspect` looks at neighbours in the order of the ranges only; since no range is empty, that is enough
(`valid_iff_sound`). Whatever the bytes of a file are, its inspection is within bounds
(`analyze_pe_bounded`). -/

namespace Elyra.Analyzer.Pe

open Elyra.Python Elyra.Ranges

/-! ## The ranges of a file -/

def sectionHeader (data : Bytes) (index : Nat) : SectionHeader :=
  .ofBytes (slice data (tableOffset data + index * sectionHeaderSize) sectionHeaderSize)

/-- The offsets of the raw data of a section. -/
def rawBytes (data : Bytes) (index : Nat) : Set Nat :=
  let row := sectionHeader data index
  Set.Ico row.rawOffset (row.rawOffset + row.rawSize)

/-- The raw data of a section is in the file, after the headers. -/
def RawInside (data : Bytes) (index : Nat) : Prop :=
  let row := sectionHeader data index
  (optionalHeader data).headersSize ≤ row.rawOffset ∧ row.rawOffset + row.rawSize ≤ data.length

def certificate (data : Bytes) : Directory := directory (directories data) 4

/-- A directory is a range in the file, after the headers and apart from the sections. -/
structure DirectoryInside (data : Bytes) (d : Directory) : Prop where
  size : d.size ≠ 0
  after : (optionalHeader data).headersSize ≤ d.offset
  inside : d.offset + d.size ≤ data.length
  apart : ∀ index < (coffHeader data).count,
    Disjoint (Set.Ico d.offset (d.offset + d.size)) (rawBytes data index)

/-- The declared ranges of a file fit. -/
structure Sound (data : Bytes) : Prop where
  inside : ∀ index < (coffHeader data).count, (sectionHeader data index).rawSize ≠ 0 → RawInside data index
  apart : ∀ i j, i < j → j < (coffHeader data).count → Disjoint (rawBytes data i) (rawBytes data j)
  certificate : (certificate data).offset = 0 ∧ (certificate data).size = 0 ∨
    DirectoryInside data (certificate data)

/-- `raw_ranges` after the loop. -/
def rawRanges (data : Bytes) : List RawRange :=
  (List.range (coffHeader data).count).flatMap fun index => ((sectionHeader data index).rawRange index).toList

variable {data : Bytes} {index : Nat} {s : Inspection} {chars : CharTable}

theorem mem_rawRange {row : SectionHeader} {r : RawRange} :
    r ∈ row.rawRange index ↔
      row.rawSize ≠ 0 ∧ r.lower = row.rawOffset ∧ r.upper = row.rawOffset + row.rawSize ∧
        r.index = index := by
  unfold SectionHeader.rawRange
  split
  · next hsize =>
    obtain ⟨⟨lower, upper, hne⟩, i⟩ := r
    simp only [Option.mem_def, Option.some.injEq, RawRange.mk.injEq, Range.mk.injEq, hsize, ne_eq,
      not_false_eq_true, true_and]
    grind
  · next hsize => simp [not_not.1 hsize]

theorem mem_rawRanges {r : RawRange} :
    r ∈ rawRanges data ↔ ∃ i < (coffHeader data).count, r ∈ (sectionHeader data i).rawRange i := by
  simp [rawRanges]

/-- The range of a section is its raw data. -/
theorem rawRange_set {r : RawRange} (h : r ∈ (sectionHeader data index).rawRange index) :
    r.set = rawBytes data index := by
  obtain ⟨-, hlower, hupper, -⟩ := mem_rawRange.1 h
  rw [Range.set, hlower, hupper, rawBytes]

theorem exists_rawRange {row : SectionHeader} (h : row.rawSize ≠ 0) (index : Nat) :
    ∃ r, r ∈ row.rawRange index := by
  unfold SectionHeader.rawRange
  rw [dif_pos h]
  exact ⟨_, rfl⟩

/-- A section without raw data takes no place. -/
theorem rawBytes_empty (h : (sectionHeader data index).rawSize = 0) : rawBytes data index = ∅ := by
  rw [rawBytes, h, Nat.add_zero, Set.Ico_self]

/-- To be apart from the raw data of a section is to be apart from its range, if it has one. -/
theorem disjoint_rawBytes_iff {t : Set Nat} :
    Disjoint t (rawBytes data index) ↔
      ∀ r ∈ (sectionHeader data index).rawRange index, Disjoint t r.set := by
  constructor
  · intro h r hr
    rw [rawRange_set hr]
    exact h
  · intro h
    by_cases hsize : (sectionHeader data index).rawSize = 0
    · rw [rawBytes_empty hsize]
      exact Set.disjoint_empty t
    · obtain ⟨r, hr⟩ := exists_rawRange hsize index
      rw [← rawRange_set hr]
      exact h r hr

/-- Any two of the ranges are apart if the raw data of any two sections are. -/
theorem pairwise_rawRanges_iff :
    (rawRanges data).Pairwise (fun r r' => Disjoint r.set r'.set) ↔
      ∀ i j, i < j → j < (coffHeader data).count → Disjoint (rawBytes data i) (rawBytes data j) := by
  have hpair : ∀ i j, (∀ r ∈ ((sectionHeader data i).rawRange i).toList,
      ∀ r' ∈ ((sectionHeader data j).rawRange j).toList, Disjoint r.set r'.set) ↔
        Disjoint (rawBytes data i) (rawBytes data j) := by
    intro i j
    constructor
    · intro h
      rw [disjoint_comm, disjoint_rawBytes_iff]
      intro r hr
      rw [disjoint_comm, disjoint_rawBytes_iff]
      intro r' hr'
      exact h r (Option.mem_toList.2 hr) r' (Option.mem_toList.2 hr')
    · intro h r hr r' hr'
      rw [rawRange_set (Option.mem_toList.1 hr), rawRange_set (Option.mem_toList.1 hr')]
      exact h
  rw [rawRanges, List.pairwise_flatMap]
  simp only [hpair]
  constructor
  · intro ⟨_, h⟩ i j hij hj
    have := List.pairwise_iff_getElem.1 h i j (by simp; omega) (by simpa using hj) hij
    simpa only [List.getElem_range] using this
  · intro h
    refine ⟨fun i _ => ?_, ?_⟩
    · cases (sectionHeader data i).rawRange i <;> simp
    · rw [List.pairwise_iff_getElem]
      intro i j hi hj hij
      rw [List.getElem_range, List.getElem_range]
      exact h i j hij (by simpa using hj)

/-! ## The order of the ranges -/

theorem RawRange.le_total (r r' : RawRange) : (r.le r' || r'.le r) = true := by
  simp only [RawRange.le, Bool.or_eq_true, Bool.and_eq_true, decide_eq_true_eq]
  omega

theorem RawRange.le_trans (r₁ r₂ r₃ : RawRange) (h : r₁.le r₂ = true) (h' : r₂.le r₃ = true) :
    r₁.le r₃ = true := by
  simp only [RawRange.le, Bool.or_eq_true, Bool.and_eq_true, decide_eq_true_eq] at h h' ⊢
  omega

theorem RawRange.lower_le {r r' : RawRange} (h : r.le r' = true) : r.lower ≤ r'.lower := by
  simp only [RawRange.le, Bool.or_eq_true, Bool.and_eq_true, decide_eq_true_eq] at h
  omega

/-- After the sort, neighbours tell whether any two ranges overlap. -/
theorem isChain_sorted_iff (ranges : List RawRange) :
    (ranges.mergeSort RawRange.le).IsChain (fun r r' => r.toRange.Precedes r'.toRange) ↔
      ranges.Pairwise fun r r' => Disjoint r.set r'.set := by
  have hsorted := List.pairwise_mergeSort RawRange.le_trans RawRange.le_total ranges
  have hperm := List.mergeSort_perm ranges RawRange.le
  have hiff := Range.isChain_precedes_iff (l := (ranges.mergeSort RawRange.le).map RawRange.toRange)
    (List.pairwise_map.2 (hsorted.imp RawRange.lower_le))
  rw [List.isChain_map, List.pairwise_map] at hiff
  rw [hiff, hperm.pairwise_iff fun h => h.symm]

/-! ## Looking at the sections -/

/-- An issue that says that the ranges do not fit. -/
def Unsound (data : Bytes) (issue : Issue) : Prop := issue.unsupported = false ∧ ¬Sound data

/-- The row that is looked at is the row of the file. -/
theorem sectionHeader_table (h : index < (coffHeader data).count) :
    SectionHeader.ofBytes (slice (headersOf data).table (index * sectionHeaderSize) sectionHeaderSize) =
      sectionHeader data index := by
  have hrow : index * sectionHeaderSize + sectionHeaderSize ≤ tableSize data := by
    rw [← Nat.succ_mul]
    exact Nat.mul_le_mul_right _ h
  rw [sectionHeader, headersOf, slice_slice hrow]

theorem row_length (hh : HasHeaders data) (h : index < (coffHeader data).count) :
    (slice (headersOf data).table (index * sectionHeaderSize) sectionHeaderSize).length =
      sectionHeaderSize := by
  have hrow : index * sectionHeaderSize + sectionHeaderSize ≤ tableSize data := by
    rw [← Nat.succ_mul]
    exact Nat.mul_le_mul_right _ h
  have htable : tableOffset data + tableSize data ≤ data.length := hh.table.1.trans hh.table.2
  rw [slice_length]
  rwa [headersOf, slice_length htable]

theorem readSection_spec {ranges : List RawRange} (hs : Bounded data maxInspectionBytes s)
    (hh : HasHeaders data) (h : index < (coffHeader data).count) :
    After (readSection chars (.ofBytes data) (optionalHeader data) (headersOf data).table ranges index) s
      (fun ranges' s => Bounded data maxInspectionBytes s ∧
        ranges' = ranges ++ ((sectionHeader data index).rawRange index).toList ∧
        ((sectionHeader data index).rawSize ≠ 0 → RawInside data index))
      (Refused data (Unsound data)) := by
  have hlen := row_length hh h
  unfold readSection
  refine (hs.after_requires (by rw [hlen]; decide)).bind fun _ s hs => ?_
  refine (hs.after_requires (by rw [hlen]; decide)).bind fun _ s hs => ?_
  rw [sectionHeader_table h]
  refine (hs.after_record rfl (.inl rfl)).bind fun _ s hs => ?_
  refine (hs.after_summarize rfl (.inl rfl)).bind fun _ s hs => ?_
  have hunsound : (sectionHeader data index).rawSize ≠ 0 ∧
      ((sectionHeader data index).rawOffset < (optionalHeader data).headersSize ∨
        data.length < (sectionHeader data index).rawOffset + (sectionHeader data index).rawSize) →
      ¬Sound data := by
    intro ⟨hsize, hbad⟩ hsound
    obtain ⟨hafter, hinside⟩ := hsound.inside index h hsize
    omega
  refine (hs.after_raiseIf le_rfl (by decide) fun hbad => ⟨rfl, hunsound hbad⟩).bind
    fun _ s ⟨hs, hin⟩ => ?_
  refine (hs.after_record (by split <;> rfl) (by split <;> exact .inl rfl)).bind fun _ s hs => ?_
  refine After.pure ⟨hs, rfl, fun hsize => ?_⟩
  obtain ⟨hafter, hinside⟩ := not_or.1 fun hbad => hin ⟨hsize, hbad⟩
  exact ⟨Nat.not_lt.1 hafter, Nat.not_lt.1 hinside⟩

/-- The loop over the section table. -/
theorem readSections_spec (hs : Bounded data maxInspectionBytes s) (hh : HasHeaders data) :
    After ((List.range (coffHeader data).count).foldlM
        (readSection chars (.ofBytes data) (optionalHeader data) (headersOf data).table) []) s
      (fun ranges s => Bounded data maxInspectionBytes s ∧ ranges = rawRanges data ∧
        ∀ index < (coffHeader data).count, (sectionHeader data index).rawSize ≠ 0 → RawInside data index)
      (Refused data (Unsound data)) := by
  refine (After.foldlM (fun done ranges s => Bounded data maxInspectionBytes s ∧
    ranges = done.flatMap (fun index => ((sectionHeader data index).rawRange index).toList) ∧
    ∀ index ∈ done, (sectionHeader data index).rawSize ≠ 0 → RawInside data index)
    ⟨hs, rfl, nofun⟩ ?_).mono ?_ fun _ _ he => he
  · intro done index rest ranges s hrange ⟨hs, hranges, hinside⟩
    have hindex : index < (coffHeader data).count := by
      rw [← List.mem_range, hrange]
      exact List.mem_append_right _ List.mem_cons_self
    refine (readSection_spec hs hh hindex).mono (fun ranges' s ⟨hs, hranges', hin⟩ => ?_) fun _ _ he => he
    refine ⟨hs, ?_, List.forall_mem_append.2 ⟨hinside, List.forall_mem_singleton.2 hin⟩⟩
    rw [hranges', hranges, List.flatMap_append, List.flatMap_singleton]
  · intro ranges s ⟨hs, hranges, hinside⟩
    exact ⟨hs, hranges, fun index h => hinside index (List.mem_range.2 h)⟩

theorem checkNeighbours_spec {why : Issue → Prop} {ranges : List RawRange}
    (hs : Bounded data maxInspectionBytes s)
    (hwhy : ¬ranges.IsChain (fun r r' => r.toRange.Precedes r'.toRange) →
      ∀ issue, issue.unsupported = false → why issue) :
    After (checkNeighbours ranges) s
      (fun _ s => Bounded data maxInspectionBytes s ∧
        ranges.IsChain fun r r' => r.toRange.Precedes r'.toRange)
      (Refused data why) := by
  fun_induction checkNeighbours ranges generalizing s with
  | case1 previous current rest ih =>
      refine (hs.after_raiseIf le_rfl (by decide) fun hbad => hwhy (fun hchain => ?_) _ rfl).bind
        fun _ s ⟨hs, hle⟩ => ?_
      · exact absurd (List.isChain_cons_cons.1 hchain).1 (Nat.not_le.2 hbad)
      refine (ih hs fun hne => hwhy fun hchain => hne (List.isChain_cons_cons.1 hchain).2).mono ?_
        fun _ _ he => he
      intro _ s ⟨hs, hchain⟩
      exact ⟨hs, List.isChain_cons_cons.2 ⟨Nat.not_lt.1 hle, hchain⟩⟩
  | case2 ranges hshort =>
      refine After.pure ⟨hs, ?_⟩
      match ranges, hshort with
      | [], _ => exact .nil
      | [r], _ => exact .singleton r
      | r :: r' :: rest, hshort => exact (hshort r r' rest rfl).elim

theorem checkOverlap_spec (hs : Bounded data maxInspectionBytes s) :
    After (checkOverlap (rawRanges data)) s
      (fun _ s => Bounded data maxInspectionBytes s ∧
        ∀ i j, i < j → j < (coffHeader data).count → Disjoint (rawBytes data i) (rawBytes data j))
      (Refused data (Unsound data)) := by
  have hiff := (isChain_sorted_iff (rawRanges data)).trans pairwise_rawRanges_iff
  have hunsound (hne : ¬((rawRanges data).mergeSort RawRange.le).IsChain fun r r' =>
      r.toRange.Precedes r'.toRange) : ¬Sound data :=
    fun hsound => hne (hiff.2 hsound.apart)
  refine (checkNeighbours_spec hs fun hne issue hissue => ⟨hissue, hunsound hne⟩).mono ?_
    fun _ _ he => he
  intro _ s ⟨hs, hchain⟩
  exact ⟨hs, hiff.1 hchain⟩

/-- A directory is apart from every section if no range reaches into it. -/
theorem directory_apart_iff {d : Directory} (hsize : d.size ≠ 0) :
    (∀ index < (coffHeader data).count,
      Disjoint (Set.Ico d.offset (d.offset + d.size)) (rawBytes data index)) ↔
    ¬∃ r ∈ rawRanges data, d.offset < r.upper ∧ r.lower < d.offset + d.size := by
  have happart : ∀ r : RawRange, Disjoint (Set.Ico d.offset (d.offset + d.size)) r.set ↔
      ¬(d.offset < r.upper ∧ r.lower < d.offset + d.size) := by
    intro r
    have hiff := Range.disjoint_iff (r := ⟨d.offset, d.offset + d.size, by omega⟩) (s := r.toRange)
    simp only [Range.Precedes] at hiff
    rw [not_and_or, Nat.not_lt, Nat.not_lt, or_comm]
    exact hiff
  simp only [disjoint_rawBytes_iff, mem_rawRanges]
  constructor
  · intro h ⟨r, ⟨i, hi, hr⟩, hoverlap⟩
    exact (happart r).1 (h i hi r hr) hoverlap
  · intro h i hi r hr
    exact (happart r).2 fun hoverlap => h ⟨r, ⟨i, hi, hr⟩, hoverlap⟩

/-- The headers end after the first byte. -/
theorem HasHeaders.headersSize_pos (h : HasHeaders data) : 0 < (optionalHeader data).headersSize := by
  have hoffset := h.dos.offset.1
  have htable := h.table.1
  unfold tableOffset at htable
  omega

theorem checkCertificate_spec {d : Directory} {why : Issue → Prop}
    (hs : Bounded data maxInspectionBytes s) (hpos : 0 < (optionalHeader data).headersSize)
    (hwhy : ¬(d.offset = 0 ∧ d.size = 0 ∨ DirectoryInside data d) →
      ∀ issue, issue.unsupported = false → why issue) :
    After (checkCertificate (.ofBytes data) (optionalHeader data) d (rawRanges data)) s
      (fun _ s => Bounded data maxInspectionBytes s ∧
        (d.offset = 0 ∧ d.size = 0 ∨ DirectoryInside data d))
      (Refused data why) := by
  unfold checkCertificate
  refine (hs.after_summarize rfl (.inl rfl)).bind fun _ s hs => ?_
  split
  · next hthere =>
    have hthere : ¬(d.offset = 0 ∧ d.size = 0) := by omega
    have hrange : d.offset = 0 ∨ d.size = 0 ∨ d.offset < (optionalHeader data).headersSize ∨
        data.length < d.offset + d.size → ¬(d.offset = 0 ∧ d.size = 0 ∨ DirectoryInside data d) := by
      intro hbad hfits
      have h := hfits.resolve_left hthere
      have hsize := h.size
      have hafter := h.after
      have hinside := h.inside
      omega
    refine (hs.after_raiseIf le_rfl (by decide) fun hbad => hwhy (hrange hbad) _ rfl).bind
      fun _ s hchecked => ?_
    obtain ⟨hs, hin⟩ := hchecked
    simp only [not_or, Nat.not_lt] at hin
    obtain ⟨-, hsize, hafter, hinside⟩ := hin
    have hoverlap : (∃ r ∈ rawRanges data, d.offset < r.upper ∧ r.lower < d.offset + d.size) →
        ¬(d.offset = 0 ∧ d.size = 0 ∨ DirectoryInside data d) :=
      fun hbad hfits => (directory_apart_iff hsize).1 (hfits.resolve_left hthere).apart hbad
    refine (hs.after_raiseIf le_rfl (by decide) fun hbad => hwhy (hoverlap hbad) _ rfl).mono ?_
      fun _ _ he => he
    rintro _ s ⟨hs, happart⟩
    exact ⟨hs, .inr ⟨hsize, hafter, hinside, (directory_apart_iff hsize).2 happart⟩⟩
  · next habsent => exact After.pure ⟨hs, .inl (by omega)⟩

/-- After the headers, the inspection ends well exactly if the ranges fit. -/
theorem inspectSections_spec (hs : Bounded data maxInspectionBytes s) (hh : HasHeaders data) :
    After (inspectSections chars (.ofBytes data) (headersOf data)) s
      (fun _ s => Bounded data maxInspectionBytes s ∧ s.result.valid = some true ∧ Sound data)
      (Refused data (Unsound data)) := by
  have hcertificate : directory (headersOf data).directories 4 = certificate data := by
    rw [headersOf, certificate]
  have hoptional : (headersOf data).optional = optionalHeader data := by rw [headersOf]
  unfold inspectSections
  rw [hcertificate, hoptional]
  refine After.bind (readSections_spec hs hh) ?_
  rintro ranges s ⟨hs, hranges, hinside⟩
  rw [hranges]
  refine After.bind (checkOverlap_spec hs) ?_
  rintro _ s ⟨hs, happart⟩
  have hunsound (hne : ¬((certificate data).offset = 0 ∧ (certificate data).size = 0 ∨
      DirectoryInside data (certificate data))) : ¬Sound data :=
    fun hsound => hne hsound.certificate
  refine After.bind (checkCertificate_spec (d := certificate data) hs hh.headersSize_pos
    fun hne issue hissue => ⟨hissue, hunsound hne⟩) ?_
  rintro _ s ⟨hs, hcertificate⟩
  exact After.update ⟨⟨hs.bytes, hs.reads, by simp⟩, rfl, hinside, happart, hcertificate⟩

theorem inspect_spec (chars : CharTable) (data : Bytes) :
    After (inspect chars (.ofBytes data)) {}
      (fun _ s => Bounded data maxInspectionBytes s ∧
        (HasHeaders data → s.result.valid = some true ∧ Sound data))
      (Refused data fun issue => HasHeaders data → Unsound data issue) := by
  unfold inspect
  refine After.bind (readHeaders_spec.mono (fun _ _ h => h) ?_) fun found s ⟨hs, hfound⟩ => ?_
  · intro e s ⟨issue, he, hcode, hne, hs⟩
    exact ⟨issue, he, hcode, fun hh => absurd hh hne, hs⟩
  obtain ⟨hfound, hne⟩ | ⟨hfound, hh⟩ := hfound
  · rw [hfound]
    exact After.pure ⟨hs, fun hh => absurd hh hne⟩
  · rw [hfound]
    refine (inspectSections_spec hs hh).mono ?_ ?_
    · intro _ s ⟨hs, hvalid⟩
      exact ⟨hs, fun _ => hvalid⟩
    · intro e s ⟨issue, he, hcode, hunsound, hs⟩
      exact ⟨issue, he, hcode, fun _ => hunsound, hs⟩

/-! ## `analyze_pe` -/

/-- How the inspection of a regular file ends. -/
theorem run_cases (chars : CharTable) (data : Bytes) :
    (∃ s, run chars (.ofBytes data) = .ok () s ∧ Bounded data maxInspectionBytes s ∧
      (HasHeaders data → s.result.valid = some true ∧ Sound data)) ∨
    ∃ issue s, run chars (.ofBytes data) = .error (.issue issue) s ∧ issue.code ≠ .readLimit ∧
      (HasHeaders data → Unsound data issue) ∧ Bounded data maxInspectionBytes s := by
  have h := inspect_spec chars data
  unfold After at h
  unfold run
  split at h
  · next heq => exact .inl ⟨_, heq, h⟩
  · next heq =>
    obtain ⟨issue, he, hcode, hunsound, hs⟩ := h
    exact .inr ⟨issue, _, he ▸ heq, hcode, hunsound, hs⟩

/-- A file whose headers are read is valid exactly if its ranges fit. -/
theorem valid_iff_sound (chars : CharTable) {head : Option Bytes} (hhead : ∀ bytes ∈ head, mz <+: bytes)
    (hheaders : HasHeaders data) :
    ((analyzePe chars (.ok (.ofBytes data)) head).result.valid = some true ↔ Sound data) ∧
      (¬Sound data → (analyzePe chars (.ok (.ofBytes data)) head).result.valid = some false ∧
        ∃ code : Code, code.text ∈ (analyzePe chars (.ok (.ofBytes data)) head).result.anomalies) := by
  have hmz : ¬∃ bytes ∈ head, ¬mz <+: bytes := fun ⟨bytes, hmem, hne⟩ => hne (hhead bytes hmem)
  unfold analyzePe
  rw [if_neg hmz]
  obtain ⟨s, hrun, -, hsound⟩ | ⟨issue, s, hrun, -, hunsound, -⟩ := run_cases chars data
  · obtain ⟨hvalid, hsound⟩ := hsound hheaders
    simp only [hrun]
    exact ⟨iff_of_true hvalid hsound, fun hne => absurd hsound hne⟩
  · obtain ⟨hsupported, hunsound⟩ := hunsound hheaders
    have hvalid : (s.failed issue).result.valid = some false := by
      rw [Inspection.failed, hsupported]
      rfl
    simp only [hrun, hvalid]
    refine ⟨iff_of_false (by decide) hunsound, fun _ => ⟨trivial, issue.code, ?_⟩⟩
    exact List.mem_append_right _ List.mem_cons_self

/-- A row of the section table: `size` bytes of raw data at `offset`. -/
def sectionRow (offset size : Nat) : Bytes :=
  List.replicate 16 0 ++ toLE 4 size ++ toLE 4 offset ++ List.replicate 16 0

/-- A file of two sections of eight bytes each and, behind them, a certificate of eight bytes. -/
def signedFile : Bytes :=
  mz ++ List.replicate 58 0 ++ toLE 4 64 ++
  peSignature ++ toLE 2 0x14C ++ toLE 2 2 ++ List.replicate 12 0 ++ toLE 2 136 ++ toLE 2 0 ++
  toLE 2 0x10B ++ List.replicate 58 0 ++ toLE 4 304 ++ List.replicate 28 0 ++ toLE 4 5 ++
  List.replicate 32 0 ++ toLE 4 320 ++ toLE 4 8 ++
  sectionRow 304 8 ++ sectionRow 312 8 ++ List.replicate 24 1

/-- The characters of ASCII. -/
def asciiChars : CharTable where
  isPrintable := fun c => decide (32 ≤ c ∧ c < 127)
  lower := List.map fun c => if 65 ≤ c ∧ c ≤ 90 then c + 32 else c

theorem signedFile_headers : HasHeaders signedFile where
  dos := ⟨by decide +kernel, by decide +kernel, by decide +kernel, by decide +kernel⟩
  coff := ⟨by decide +kernel, by decide +kernel, by decide +kernel⟩
  optional := ⟨by decide +kernel, by decide +kernel, by decide +kernel, by decide +kernel⟩
  table := by unfold HasTable; decide +kernel

theorem signedFile_sound : Sound signedFile := by
  have hcount : (coffHeader signedFile).count = 2 := by decide +kernel
  have hfirst : rawBytes signedFile 0 = Set.Ico 304 312 :=
    congrArg₂ Set.Ico (by decide +kernel) (by decide +kernel)
  have hsecond : rawBytes signedFile 1 = Set.Ico 312 320 :=
    congrArg₂ Set.Ico (by decide +kernel) (by decide +kernel)
  have hdirectory : certificate signedFile = ⟨320, 8⟩ := by decide +kernel
  refine ⟨?_, ?_, .inr ⟨?_, ?_, ?_, ?_⟩⟩
  · have hinside : ∀ index < 2, (optionalHeader signedFile).headersSize ≤
        (sectionHeader signedFile index).rawOffset ∧ (sectionHeader signedFile index).rawOffset +
          (sectionHeader signedFile index).rawSize ≤ signedFile.length := by decide +kernel
    exact fun index hindex _ => hinside index (hcount ▸ hindex)
  · intro i j hij hj
    rw [hcount] at hj
    obtain ⟨rfl, rfl⟩ : i = 0 ∧ j = 1 := by omega
    rw [hfirst, hsecond]
    exact Set.Ico_disjoint_Ico_same
  · rw [hdirectory]
    decide
  · rw [hdirectory]
    decide +kernel
  · rw [hdirectory]
    decide +kernel
  · intro index hindex
    rw [hcount] at hindex
    rw [hdirectory]
    obtain rfl | rfl : index = 0 ∨ index = 1 := by omega
    · rw [hfirst]
      exact (Set.Ico_disjoint_Ico.2 (by decide)).symm
    · rw [hsecond]
      exact Set.Ico_disjoint_Ico_same.symm

/-- The ranges of the signed file fit. -/
theorem signedFile_valid :
    (analyzePe asciiChars (.ok (.ofBytes signedFile)) (some mz)).result.valid = some true :=
  (valid_iff_sound asciiChars (by simp) signedFile_headers).1.2 signedFile_sound

/-- The inspection of a regular file never reaches `struct.error` or the limit of bytes, reads within the
    file and the limit, and ends with a status of its own. -/
theorem analyze_pe_bounded (chars : CharTable) (data : Bytes) (head : Option Bytes) :
    (∀ fault s, run chars (.ofBytes data) ≠ .error (.raised fault) s) ∧
    (∀ issue s, run chars (.ofBytes data) = .error (.issue issue) s → issue.code ≠ .readLimit) ∧
    (∀ r ∈ (analyzePe chars (.ok (.ofBytes data)) head).reads, r.1 + r.2 ≤ data.length) ∧
    (analyzePe chars (.ok (.ofBytes data)) head).result.summary.bytesRead ≤ maxInspectionBytes ∧
    (analyzePe chars (.ok (.ofBytes data)) head).result.summary.status ∈
      [.notPe, .complete, .incomplete, .unsupported] := by
  have hstatus : ∀ status : Status, status ≠ .error →
      status ∈ [.notPe, .complete, .incomplete, .unsupported] := by
    intro status h
    cases status <;> first | decide | exact absurd rfl h
  obtain ⟨s, hrun, hs, -⟩ | ⟨issue, s, hrun, hcode, -, hs⟩ := run_cases chars data
  · refine ⟨by simp [hrun], by simp [hrun], ?_⟩
    unfold analyzePe
    split
    · exact ⟨nofun, Nat.zero_le _, by decide⟩
    · simp only [hrun]
      exact ⟨hs.reads, hs.bytes, hstatus _ hs.status⟩
  · refine ⟨by simp [hrun], ?_, ?_⟩
    · intro issue' s' h
      rw [hrun] at h
      cases h
      exact hcode
    · unfold analyzePe
      split
      · exact ⟨nofun, Nat.zero_le _, by decide⟩
      · simp only [hrun]
        refine ⟨hs.reads, hs.bytes, hstatus _ ?_⟩
        unfold Inspection.failed
        cases issue.unsupported <;> simp

end Elyra.Analyzer.Pe
