import Elyra.Analyzer.Pe

set_option autoImplicit false

/-! # What the headers of a file say

Where the headers of a PE file are and what they must say to be read to the end of the section table
(`HasHeaders`), stated on the bytes of the file. `readHeaders` reads them exactly then, within the file
and its budget of bytes (`readHeaders_spec`). -/

namespace Elyra.Analyzer.Pe

open Elyra.Python

/-! ## The layout -/

/-- `e_lfanew` -/
def peOffset (data : Bytes) : Nat := u32 data 0x3C

def coffHeader (data : Bytes) : CoffHeader := .ofBytes (slice data (peOffset data + 4) 20)

def optionalBytes (data : Bytes) : Bytes := slice data (peOffset data + 24) (coffHeader data).optionalSize

def optionalHeader (data : Bytes) : OptionalHeader := .ofBytes (optionalBytes data)

/-- The first directories of the file, sixteen at most. -/
def directories (data : Bytes) : List Directory :=
  (List.range (min (optionalHeader data).directories 16)).map fun index =>
    .ofBytes (optionalBytes data) ((optionalHeader data).format.directoryBase + index * 8)

def tableOffset (data : Bytes) : Nat := peOffset data + 24 + (coffHeader data).optionalSize

def tableSize (data : Bytes) : Nat := (coffHeader data).count * sectionHeaderSize

structure HasDos (data : Bytes) : Prop where
  length : 64 ≤ data.length
  magic : mz <+: data
  offset : 64 ≤ peOffset data ∧ peOffset data ≤ maxPeHeaderOffset
  inside : peOffset data + 24 ≤ data.length

structure HasCoff (data : Bytes) : Prop where
  signature : slice data (peOffset data) 4 = peSignature
  count : 1 ≤ (coffHeader data).count ∧ (coffHeader data).count ≤ maxSections
  optionalSize : 2 ≤ (coffHeader data).optionalSize ∧
    (coffHeader data).optionalSize ≤ maxOptionalHeaderSize

structure HasOptional (data : Bytes) : Prop where
  inside : tableOffset data ≤ data.length
  magic : u16 (optionalBytes data) 0 = 0x10B ∨ u16 (optionalBytes data) 0 = 0x20B
  fields : (optionalHeader data).format.directoryBase ≤ (coffHeader data).optionalSize
  directories : (optionalHeader data).directories ≤
    ((coffHeader data).optionalSize - (optionalHeader data).format.directoryBase) / 8

/-- `SizeOfHeaders` covers the section table and lies in the file. -/
def HasTable (data : Bytes) : Prop :=
  tableOffset data + tableSize data ≤ (optionalHeader data).headersSize ∧
    (optionalHeader data).headersSize ≤ data.length

/-- The headers and the section table can be read. -/
structure HasHeaders (data : Bytes) : Prop where
  dos : HasDos data
  coff : HasCoff data
  optional : HasOptional data
  table : HasTable data

/-- What is read of such a file. -/
def headersOf (data : Bytes) : Headers where
  coff := coffHeader data
  optional := optionalHeader data
  directories := directories data
  table := slice data (tableOffset data) (tableSize data)

/-! ## Bounds -/

/-- An inspection of the file that has read at most `budget` bytes, all of them in the file. -/
structure Bounded (data : Bytes) (budget : Nat) (s : Inspection) : Prop where
  bytes : s.result.summary.bytesRead ≤ budget
  reads : ∀ r ∈ s.reads, r.1 + r.2 ≤ data.length
  status : s.result.summary.status ≠ .error

/-- It ends with an issue, and for a reason. -/
def Refused (data : Bytes) (why : Issue → Prop) (e : Stop) (s : Inspection) : Prop :=
  ∃ issue, e = .issue issue ∧ issue.code ≠ .readLimit ∧ why issue ∧ Bounded data maxInspectionBytes s

variable {data bytes : Bytes} {budget : Nat} {s : Inspection} {why : Issue → Prop}
  {exc : Stop → Inspection → Prop}

theorem Bounded.mono {budget' : Nat} (h : Bounded data budget s) (hle : budget ≤ budget') :
    Bounded data budget' s :=
  ⟨h.bytes.trans hle, h.reads, h.status⟩

/-- Changing the result otherwise is no reading. -/
theorem Bounded.after_record {f : PEAnalysis → PEAnalysis} (h : Bounded data budget s)
    (hbytes : (f s.result).summary.bytesRead = s.result.summary.bytesRead)
    (hstatus : (f s.result).summary.status = s.result.summary.status ∨
      (f s.result).summary.status ≠ .error) :
    After (record f) s (fun _ s' => Bounded data budget s') exc := by
  refine After.update ⟨hbytes.trans_le h.bytes, h.reads, ?_⟩
  obtain hstatus | hstatus := hstatus
  · exact hstatus.trans_ne h.status
  · exact hstatus

theorem Bounded.after_summarize {f : Summary → Summary} (h : Bounded data budget s)
    (hbytes : (f s.result.summary).bytesRead = s.result.summary.bytesRead)
    (hstatus : (f s.result.summary).status = s.result.summary.status ∨
      (f s.result.summary).status ≠ .error) :
    After (summarize f) s (fun _ s' => Bounded data budget s') exc :=
  h.after_record hbytes hstatus

theorem Bounded.after_raiseIf {bad : Prop} [Decidable bad] {code : Code} {message : PyStr}
    {unsupported : Bool} (h : Bounded data budget s) (hbudget : budget ≤ maxInspectionBytes)
    (hcode : code ≠ .readLimit) (hwhy : bad → why ⟨code, message, unsupported⟩) :
    After (raiseIf bad code message unsupported) s (fun _ s' => Bounded data budget s' ∧ ¬bad)
      (Refused data why) := by
  unfold raiseIf
  split
  · next hbad => exact After.throw ⟨_, rfl, hcode, hwhy hbad, h.mono hbudget⟩
  · next hbad => exact After.pure ⟨h, hbad⟩

theorem Bounded.after_requires {offset size : Nat} (h : Bounded data budget s)
    (hsize : offset + size ≤ bytes.length) :
    After (requires bytes offset size) s (fun _ s' => Bounded data budget s') exc := by
  unfold requires
  rw [if_pos hsize]
  exact After.pure h

/-- A read in the file for which there is budget left. -/
theorem read_inside {offset size : Nat} {code : Code} (hin : offset + size ≤ data.length)
    (hlimit : s.result.summary.bytesRead + size ≤ maxInspectionBytes) :
    read (.ofBytes data) offset size code s = .ok (slice data offset size)
      { result := { s.result with
          summary := { s.result.summary with bytesRead := s.result.summary.bytesRead + size } }
        reads := s.reads ++ [(offset, size)] } := by
  have hlen : (slice data offset size).length = size := slice_length hin
  simp only [read, raiseIf, summarize, record, Source.ofBytes, bind, EStateM.bind, pure, EStateM.pure,
    run_get, run_modify, Nat.not_lt.2 hin, Nat.not_lt.2 hlimit, hlen, ne_eq, not_true_eq_false, reduceIte]

/-- A read within the budget either gives the bytes of the file, or they are not all there. -/
theorem Bounded.after_read {offset size : Nat} {code : Code} (h : Bounded data budget s)
    (hbudget : budget + size ≤ maxInspectionBytes) (hcode : code ≠ .readLimit)
    (hwhy : data.length < offset + size → ∀ issue, why issue) :
    After (read (.ofBytes data) offset size code) s
      (fun bytes s' => Bounded data (budget + size) s' ∧ offset + size ≤ data.length ∧
        bytes = slice data offset size)
      (Refused data why) := by
  by_cases hin : offset + size ≤ data.length
  · have hbytes := h.bytes
    unfold After
    rw [read_inside hin (by omega)]
    refine ⟨⟨Nat.add_le_add_right hbytes size, ?_, h.status⟩, hin, rfl⟩
    intro r hr
    obtain hr | hr := List.mem_append.1 hr
    · exact h.reads r hr
    · obtain rfl := List.mem_singleton.1 hr
      exact hin
  · have hout := Nat.not_le.1 hin
    unfold read
    refine (h.after_raiseIf (by omega) hcode fun _ => hwhy hout _).bind fun _ s' hs' => ?_
    exact absurd hout hs'.2

/-! ## Reading the headers -/

theorem bounded_start : Bounded data 0 {} := ⟨le_rfl, nofun, by decide⟩

theorem u32_slice {offset size field : Nat} (h : field + 4 ≤ size) :
    u32 (slice data offset size) field = u32 data (offset + field) := by
  rw [u32, u32, slice_slice h]

theorem mz_slice {size : Nat} : mz <+: slice data 0 size ↔ mz <+: data ∧ 2 ≤ size := by
  rw [slice, List.drop_zero, List.prefix_take_iff]
  rfl

theorem readDos_spec :
    After (readDos (.ofBytes data)) {}
      (fun found s => Bounded data 64 s ∧
        (found = none ∧ ¬HasHeaders data ∨ found = some (peOffset data) ∧ HasDos data))
      (Refused data fun _ => ¬HasHeaders data) := by
  unfold readDos
  refine (bounded_start.after_read (by simp only [Source.ofBytes, maxInspectionBytes]; omega) (by decide)
    fun hout => ?_).bind fun dos s ⟨h, hin, hdos⟩ => ?_
  · simp only [Source.ofBytes] at hout
    omega
  simp only [Source.ofBytes] at h hin hdos ⊢
  have h : Bounded data 64 s := h.mono (by omega)
  have hlen : dos.length = min 64 data.length := by rw [hdos, slice_length hin]
  split
  · next hmz =>
    refine After.pure ⟨h, .inl ⟨rfl, fun hh => hmz ?_⟩⟩
    rw [hdos, mz_slice]
    exact ⟨hh.dos.magic, by have := hh.dos.length; omega⟩
  next hmz =>
  have hmz : mz <+: data := (mz_slice.1 (hdos ▸ not_not.1 hmz)).1
  refine (h.after_summarize rfl (.inr (by simp))).bind fun _ s h => ?_
  refine (h.after_raiseIf (by decide) (by decide) fun hbad hh => ?_).bind fun _ s ⟨h, hlong⟩ => ?_
  · have := hh.dos.length
    omega
  have hlong : 64 ≤ data.length := by omega
  -- `e_lfanew` is in the 64 bytes that have been read.
  have hoffset : u32 dos 0x3C = peOffset data := by
    rw [hdos, Nat.min_eq_left hlong, u32_slice (by omega), Nat.zero_add, peOffset]
  rw [hoffset]
  refine (h.after_requires (by omega)).bind fun _ s h => ?_
  refine (h.after_summarize rfl (.inl rfl)).bind fun _ s h => ?_
  refine (h.after_raiseIf (by decide) (by decide) fun hbad hh => ?_).bind fun _ s ⟨h, hinside⟩ => ?_
  · have hoffset := hh.dos.offset.1
    have hinside := hh.dos.inside
    omega
  refine (h.after_raiseIf (by decide) (by decide) fun hbad hh => ?_).bind fun _ s ⟨h, hlimit⟩ => ?_
  · exact absurd hh.dos.offset.2 (Nat.not_le.2 hbad)
  exact After.pure ⟨h, .inr ⟨rfl, hlong, hmz, ⟨by omega, by omega⟩, by omega⟩⟩

theorem readCoff_spec {s : Inspection} (h : Bounded data 64 s) (hdos : HasDos data) :
    After (readCoff (.ofBytes data) (peOffset data)) s
      (fun coff s => Bounded data 88 s ∧ coff = coffHeader data ∧ HasCoff data)
      (Refused data fun _ => ¬HasHeaders data) := by
  have hinside := hdos.inside
  unfold readCoff
  refine (h.after_read (by decide) (by decide) fun hout => by omega).bind
    fun signature s ⟨h, _, hsignature⟩ => ?_
  subst hsignature
  refine (h.after_raiseIf (by decide) (by decide) fun hbad hh => hbad hh.coff.signature).bind
    fun _ s ⟨h, hsignature⟩ => ?_
  refine (h.after_record rfl (.inl rfl)).bind fun _ s h => ?_
  refine (h.after_read (by decide) (by decide) fun hout => by omega).bind fun bytes s ⟨h, hin, hbytes⟩ => ?_
  subst hbytes
  refine (h.after_requires (by rw [slice_length hin])).bind fun _ s h => ?_
  refine (h.after_summarize rfl (.inl rfl)).bind fun _ s h => ?_
  refine (h.after_raiseIf (by decide) (by decide) fun hbad hh => ?_).bind fun _ s ⟨h, hzero⟩ => ?_
  · exact absurd hh.coff.count.1 (Nat.not_le.2 (Nat.lt_one_iff.2 hbad))
  refine (h.after_raiseIf (by decide) (by decide) fun hbad hh => ?_).bind fun _ s ⟨h, hcount⟩ => ?_
  · exact absurd hh.coff.count.2 (Nat.not_le.2 hbad)
  refine (h.after_raiseIf (by decide) (by decide) fun hbad hh => ?_).bind fun _ s ⟨h, hsmall⟩ => ?_
  · exact absurd hh.coff.optionalSize.1 (Nat.not_le.2 hbad)
  refine (h.after_raiseIf (by decide) (by decide) fun hbad hh => ?_).bind fun _ s ⟨h, hlarge⟩ => ?_
  · exact absurd hh.coff.optionalSize.2 (Nat.not_le.2 hbad)
  exact After.pure ⟨h, rfl, not_not.1 hsignature, ⟨Nat.one_le_iff_ne_zero.2 hzero, Nat.not_lt.1 hcount⟩,
    Nat.not_lt.1 hsmall, Nat.not_lt.1 hlarge⟩

/-- Every field that is read is below `directory_base`. -/
theorem Format.fields_inside (f : Format) : 96 ≤ f.directoryBase ∧
    f.imageBaseField.1 + f.imageBaseField.2 ≤ f.directoryBase := by
  cases f <;> decide

theorem readOptional_spec {s : Inspection} (h : Bounded data 88 s) (hcoff : HasCoff data) :
    After (readOptional (.ofBytes data) (peOffset data) (coffHeader data)) s
      (fun optional s => Bounded data (88 + (coffHeader data).optionalSize) s ∧
        optional = (optionalBytes data, optionalHeader data) ∧
        HasOptional data)
      (Refused data fun _ => ¬HasHeaders data) := by
  obtain ⟨hsmall, hlarge⟩ := hcoff.optionalSize
  have hbudget : 88 + (coffHeader data).optionalSize ≤ maxInspectionBytes :=
    (Nat.add_le_add_left hlarge 88).trans (by decide)
  unfold readOptional
  refine (h.after_read hbudget (by decide) fun hout _ hh => ?_).bind fun bytes s ⟨h, hin, hbytes⟩ => ?_
  · exact absurd hh.optional.inside (Nat.not_le.2 hout)
  have hlen : bytes.length = (coffHeader data).optionalSize := by rw [hbytes, slice_length hin]
  obtain rfl : bytes = optionalBytes data := hbytes
  refine (h.after_requires (by omega)).bind fun _ s h => ?_
  refine (h.after_summarize rfl (.inl rfl)).bind fun _ s h => ?_
  refine (h.after_raiseIf hbudget (by decide) fun hbad hh => ?_).bind fun _ s ⟨h, hmagic⟩ => ?_
  · obtain hmagic | hmagic := hh.optional.magic
    · exact hbad.1 hmagic
    · exact hbad.2 hmagic
  refine (h.after_summarize rfl (.inl rfl)).bind fun _ s h => ?_
  refine (h.after_raiseIf hbudget (by decide) fun hbad hh => ?_).bind fun _ s ⟨h, hfields⟩ => ?_
  · rw [hlen] at hbad
    exact absurd hh.optional.fields (Nat.not_le.2 hbad)
  have hbase := (optionalHeader data).format.fields_inside
  have hfields : (optionalHeader data).format.directoryBase ≤ (optionalBytes data).length :=
    Nat.not_lt.1 hfields
  have hlast : (optionalHeader data).format.directoryBase - 4 + 4 ≤ (optionalBytes data).length := by
    omega
  refine (h.after_requires (by omega)).bind fun _ s h => ?_
  refine (h.after_requires (hbase.2.trans hfields)).bind fun _ s h => ?_
  refine (h.after_requires (by omega)).bind fun _ s h => ?_
  refine (h.after_requires (by omega)).bind fun _ s h => ?_
  refine (h.after_requires (by omega)).bind fun _ s h => ?_
  refine (h.after_requires hlast).bind fun _ s h => ?_
  refine (h.after_summarize rfl (.inl rfl)).bind fun _ s h => ?_
  refine (h.after_raiseIf hbudget (by decide) fun hbad hh => ?_).bind fun _ s ⟨h, hdirectories⟩ => ?_
  · exact absurd hh.optional.directories (Nat.not_le.2 hbad)
  refine After.pure ⟨h, rfl, hin, ?_, hlen ▸ hfields, Nat.not_lt.1 hdirectories⟩
  by_contra hne
  exact hmagic (not_or.1 hne)

/-- The directories that are read are in the bytes of the header. -/
theorem HasOptional.directory_inside (h : HasOptional data) {index : Nat}
    (hindex : index < (optionalHeader data).directories) :
    (optionalHeader data).format.directoryBase + index * 8 + 8 ≤ (optionalBytes data).length := by
  have hlen : (optionalBytes data).length = (coffHeader data).optionalSize := slice_length h.inside
  have hfields := h.fields
  have hdirectories := h.directories
  omega

/-- The loop over the directories. -/
theorem readDirectories_loop {s : Inspection} (h : Bounded data budget s) (hopt : HasOptional data) :
    After ((List.range (min (optionalHeader data).directories 16)).foldlM (fun values index => do
        let offset := (optionalHeader data).format.directoryBase + index * 8
        requires (optionalBytes data) offset 8
        return values ++ [Directory.ofBytes (optionalBytes data) offset]) []) s
      (fun found s => Bounded data budget s ∧ found = directories data) exc := by
  -- So far: the directories that the turns before this one have read.
  refine After.foldlM (fun done values s => Bounded data budget s ∧ values = done.map fun index =>
    Directory.ofBytes (optionalBytes data) ((optionalHeader data).format.directoryBase + index * 8))
    ⟨h, rfl⟩ ?_
  intro done index rest values s hrange ⟨h, hvalues⟩
  have hindex : index ∈ List.range (min (optionalHeader data).directories 16) := by
    rw [hrange]
    exact List.mem_append_right _ List.mem_cons_self
  have hindex := lt_of_lt_of_le (List.mem_range.1 hindex) (min_le_left _ _)
  refine (h.after_requires (hopt.directory_inside hindex)).bind fun _ s h => ?_
  refine After.pure ⟨h, ?_⟩
  rw [hvalues, List.map_append, List.map_singleton]

theorem readDirectories_spec {s : Inspection} (h : Bounded data budget s) (hopt : HasOptional data) :
    After (readDirectories (optionalBytes data) (optionalHeader data)) s
      (fun found s => Bounded data budget s ∧ found = directories data) exc := by
  unfold readDirectories
  refine (readDirectories_loop h hopt).bind fun found s ⟨h, hfound⟩ => ?_
  refine (h.after_summarize rfl (.inl rfl)).bind fun _ s h => ?_
  exact After.pure ⟨h, hfound⟩

theorem readTable_spec {s : Inspection} (h : Bounded data (88 + (coffHeader data).optionalSize) s)
    (hcoff : HasCoff data) :
    After (readTable (.ofBytes data) (peOffset data) (coffHeader data) (optionalHeader data)) s
      (fun table s => Bounded data maxInspectionBytes s ∧
        table = slice data (tableOffset data) (tableSize data) ∧ HasTable data)
      (Refused data fun _ => ¬HasHeaders data) := by
  have hsize := hcoff.optionalSize.2
  have hcount : tableSize data ≤ maxSections * sectionHeaderSize :=
    Nat.mul_le_mul_right sectionHeaderSize hcoff.count.2
  have hmax : 88 + maxOptionalHeaderSize + maxSections * sectionHeaderSize = maxInspectionBytes := rfl
  unfold readTable
  refine (h.after_raiseIf (by omega) (by decide) fun hbad hh => ?_).bind fun _ s ⟨h, hin⟩ => ?_
  · exact absurd (hh.table.1.trans hh.table.2) (Nat.not_le.2 hbad)
  refine (h.after_raiseIf (by omega) (by decide) fun hbad hh => ?_).bind fun _ s ⟨h, hsize⟩ => ?_
  · obtain hbad | hbad := hbad
    · exact absurd hh.table.1 (Nat.not_le.2 hbad)
    · exact absurd hh.table.2 (Nat.not_le.2 hbad)
  obtain ⟨hcover, hinside⟩ := not_or.1 hsize
  have hbudget : 88 + (coffHeader data).optionalSize + tableSize data ≤ maxInspectionBytes := by omega
  refine (h.after_read hbudget (by decide) fun hout => ?_).mono ?_ fun _ _ he => he
  · exact absurd hout hin
  · intro table s ⟨h, _, htable⟩
    exact ⟨h.mono hbudget, htable, Nat.not_lt.1 hcover, Nat.not_lt.1 hinside⟩

/-- The headers are read exactly if they are there; what is read is what the file says. -/
theorem readHeaders_spec :
    After (readHeaders (.ofBytes data)) {}
      (fun found s => Bounded data maxInspectionBytes s ∧
        (found = none ∧ ¬HasHeaders data ∨ found = some (headersOf data) ∧ HasHeaders data))
      (Refused data fun _ => ¬HasHeaders data) := by
  unfold readHeaders
  refine readDos_spec.bind fun found s ⟨h, hfound⟩ => ?_
  obtain ⟨hfound, hne⟩ | ⟨hfound, hdos⟩ := hfound
  · rw [hfound]
    exact After.pure ⟨h.mono (by decide), .inl ⟨rfl, hne⟩⟩
  rw [hfound]
  refine (readCoff_spec h hdos).bind fun coff s ⟨h, hheader, hcoff⟩ => ?_
  rw [hheader]
  refine (readOptional_spec h hcoff).bind fun optional s ⟨h, hoptional, hopt⟩ => ?_
  rw [hoptional]
  refine (readDirectories_spec h hopt).bind fun found s ⟨h, hdirectories⟩ => ?_
  refine (readTable_spec h hcoff).bind fun table s ⟨h, htable, hhas⟩ => ?_
  refine After.pure ⟨h, .inr ⟨?_, hdos, hcoff, hopt, hhas⟩⟩
  rw [hdirectories, htable, headersOf]

/-- The executions that read the headers and the section table are those on files that have them. -/
theorem hasHeaders_iff :
    HasHeaders data ↔ ∃ headers s, readHeaders (.ofBytes data) {} = .ok (some headers) s := by
  have h := @readHeaders_spec data
  unfold After at h
  constructor
  · intro hh
    split at h
    · next heq =>
      obtain ⟨_, hne⟩ | ⟨hfound, -⟩ := h.2
      · exact absurd hh hne
      · exact ⟨_, _, hfound ▸ heq⟩
    · obtain ⟨_, _, _, hne, _⟩ := h
      exact absurd hh hne
  · intro ⟨headers, s, heq⟩
    rw [heq] at h
    obtain ⟨hfound, -⟩ | ⟨-, hh⟩ := h.2
    · cases hfound
    · exact hh

end Elyra.Analyzer.Pe
