import Elyra.Analyzer.StaticScan
import Elyra.Python.Paths
import Elyra.Scoring.Loading
import Elyra.Scoring.Monotone

set_option autoImplicit false

/-! # From the file to the score

The scanner turns what it reads into names, and the scoring engine looks for names. `Shows` says what there
is about a file for each rule, without any of the names: which bits its mode has, which headers can be read
before the first failure, which directories its path leads through. A scan that comes to its end triggers
the rules that the file shows and no others (`triggered_iff_shows`), whatever the sections of the file are
called. -/

namespace Elyra.Scoring

open Elyra.Python
open Elyra.Analyzer (Platform Probe Metadata ScanReport ElfFile ElfError ElfSection ElfSegment ElfData
  Problem Consistency)

variable {F : Type}

/-! ## Up to the first failure -/

section Until

variable {ε α β : Type}

/-- What an iteration gives before it raises. -/
def beforeError : List (Except ε α) → List α
  | .ok a :: xs => a :: beforeError xs
  | _ => []

/-- What an iteration raises. -/
def firstError : List (Except ε α) → Option ε
  | [] => none
  | .error e :: _ => some e
  | .ok _ :: xs => firstError xs

/-- Marks for some of the items, with their places from `i` on. -/
def marks (mark : α → Nat → List β) : List α → Nat → List β
  | [], _ => []
  | a :: as, i => mark a i ++ marks mark as (i + 1)

theorem mem_marks {mark : α → Nat → List β} {as : List α} {i : Nat} {b : β} :
    b ∈ marks mark as i → ∃ a ∈ as, ∃ j, b ∈ mark a j := by
  induction as generalizing i with
  | nil => exact fun h => absurd h List.not_mem_nil
  | cons a as ih =>
      intro h
      rcases List.mem_append.1 h with h | h
      · exact ⟨a, List.mem_cons_self, i, h⟩
      · obtain ⟨a', ha', hmark⟩ := ih h
        exact ⟨a', List.mem_cons_of_mem _ ha', hmark⟩

theorem marks_ne_nil (mark : α → Nat → List β) {as : List α} (i : Nat) {a : α} (ha : a ∈ as)
    (hmark : ∀ j, mark a j ≠ []) : marks mark as i ≠ [] := by
  induction as generalizing i with
  | nil => cases ha
  | cons a' as ih =>
      rw [marks, ne_eq, List.append_eq_nil_iff, not_and_or]
      rcases List.mem_cons.1 ha with rfl | ha
      · exact .inl (hmark i)
      · exact .inr (ih (i + 1) ha)

end Until

/-! ## The names of the marks -/

section Names

theorem py_injective {s t : String} (h : py s = py t) : s = t := by
  have hchar : Function.Injective Char.toNat := fun a b hab => Char.ext (UInt32.toNat_inj.1 hab)
  exact String.toList_injective (List.map_injective_iff.2 hchar h)

theorem py_inj {s t : String} : py s = py t ↔ s = t := ⟨py_injective, congrArg py⟩

end Names

/-! ## ELF -/

/-- The sections that are read before anything fails. -/
def sectionsRead (file : ElfFile) : List ElfSection :=
  if file.opened.isOk then beforeError file.sections else []

/-- The segments that are read before anything fails. -/
def segmentsRead (file : ElfFile) : List ElfSegment :=
  if file.opened.isOk ∧ firstError file.sections = none then beforeError file.segments else []

/-- The first failure: in opening, in a section or in a segment. -/
def failure (file : ElfFile) : Option ElfError :=
  match file.opened with
  | .error e => some e
  | .ok _ => (firstError file.sections).or (firstError file.segments)

def sectionMark (row : ElfSection) (i : Nat) : List PyStr :=
  if row.writableExecutable then
    [py "WRITABLE_EXECUTABLE_SECTION:" ++ if row.name ≠ [] then row.name else natText i]
  else []

def segmentMark (row : ElfSegment) (i : Nat) : List PyStr :=
  if row.writableExecutable then [py "WRITABLE_EXECUTABLE_SEGMENT:" ++ natText i] else []

theorem readSections_eq (rows : List (Except ElfError ElfSection)) (i : Nat) (data : ElfData) :
    Analyzer.readSections rows i data =
      ({ data with
          sections := data.sections ++ beforeError rows
          indicators := data.indicators ++ marks sectionMark (beforeError rows) i },
        firstError rows) := by
  induction rows generalizing i data with
  | nil => simp [Analyzer.readSections, beforeError, firstError, marks]
  | cons row rows ih =>
      cases row with
      | error e => simp [Analyzer.readSections, beforeError, firstError, marks]
      | ok row =>
          rw [Analyzer.readSections, ih]
          simp [beforeError, firstError, marks, sectionMark]

theorem readSegments_eq (rows : List (Except ElfError ElfSegment)) (i : Nat) (data : ElfData) :
    Analyzer.readSegments rows i data =
      ({ data with
          segments := data.segments ++ beforeError rows
          indicators := data.indicators ++ marks segmentMark (beforeError rows) i },
        firstError rows) := by
  induction rows generalizing i data with
  | nil => simp [Analyzer.readSegments, beforeError, firstError, marks]
  | cons row rows ih =>
      cases row with
      | error e => simp [Analyzer.readSegments, beforeError, firstError, marks]
      | ok row =>
          rw [Analyzer.readSegments, ih]
          simp [beforeError, firstError, marks, segmentMark]

/-- The indicators of `analyze_elf` for a file that starts as an ELF file. -/
def elfMarks (file : ElfFile) : List PyStr :=
  (if file.opened.toOption = some 0 then [py "ELF_ENTRY_POINT_ZERO"] else []) ++
  marks sectionMark (sectionsRead file) 0 ++ marks segmentMark (segmentsRead file) 0 ++
  (if failure file = none ∧ file.sections = [] then [py "ELF_NO_SECTION_HEADERS"] else [])

theorem beforeError_eq_nil {ε α : Type} {xs : List (Except ε α)} (h : firstError xs = none) :
    beforeError xs = [] ↔ xs = [] := by
  cases xs with
  | nil => exact iff_of_true rfl rfl
  | cons x xs =>
      cases x with
      | error e => cases h
      | ok a => exact iff_of_false (List.cons_ne_nil _ _) (List.cons_ne_nil _ _)

theorem parseElf_spec (file : ElfFile) (data : ElfData) (hsections : data.sections = []) :
    (Analyzer.parseElf file data).2 = failure file ∧
      (Analyzer.parseElf file data).1.indicators = data.indicators ++ elfMarks file ∧
      (Analyzer.parseElf file data).1.isElf = data.isElf := by
  cases hopened : file.opened with
  | error e =>
      have hfailure : failure file = some e := by rw [failure, hopened]
      simp [Analyzer.parseElf, elfMarks, sectionsRead, segmentsRead, hopened, hfailure, marks,
        Except.toOption, Except.isOk, Except.toBool]
  | ok entry =>
      have hfailure : failure file = (firstError file.sections).or (firstError file.segments) := by
        rw [failure, hopened]
      have hok : file.opened.isOk = true := by rw [hopened]; rfl
      have hentry : file.opened.toOption = some entry := by rw [hopened]; rfl
      simp only [Analyzer.parseElf, hopened, readSections_eq, readSegments_eq, hsections,
        List.nil_append]
      -- the iteration over the sections fails, or the one over the segments, or none
      cases hsec : firstError file.sections with
      | some e =>
          simp [elfMarks, sectionsRead, segmentsRead, hok, hsec, hfailure, hentry, marks]
      | none =>
          cases hseg : firstError file.segments with
          | some e =>
              simp [elfMarks, sectionsRead, segmentsRead, hok, hsec, hseg, hfailure, hentry]
          | none =>
              simp [elfMarks, sectionsRead, segmentsRead, hok, hsec, hseg, hfailure, hentry,
                beforeError_eq_nil hsec]

/-- The first bytes are those of an ELF file. -/
def IsElf (head : Bytes) : Prop := Analyzer.elfMagic.isPrefixOf head = true

theorem analyzeElf_some (file : ElfFile) {head : Bytes} (hmagic : IsElf head) :
    (Analyzer.analyzeElf (some file) head).1.isElf = true ∧
      (Analyzer.analyzeElf (some file) head).1.indicators = elfMarks file ∧
      (Analyzer.analyzeElf (some file) head).2.2 = (failure file).toList.map ElfError.problem := by
  obtain ⟨hfailure, hmarks, hisElf⟩ :=
    parseElf_spec file { isElf := Analyzer.elfMagic.isPrefixOf head } rfl
  rw [hmagic] at hfailure hmarks hisElf
  unfold Analyzer.analyzeElf
  rw [hmagic]
  simp only [Bool.not_true, Bool.false_eq_true, if_false]
  -- whether the body of the `try` raises
  split
  · next data hparse =>
    rw [hparse] at hfailure hmarks hisElf
    exact ⟨hisElf, hmarks, by rw [← hfailure]; rfl⟩
  · next data e hparse =>
    rw [hparse] at hfailure hmarks hisElf
    exact ⟨hisElf, hmarks, by rw [← hfailure]; rfl⟩

theorem analyzeElf_isElf (elf : Option ElfFile) (head : Bytes) :
    (Analyzer.analyzeElf elf head).1.isElf = Analyzer.elfMagic.isPrefixOf head := by
  cases hmagic : Analyzer.elfMagic.isPrefixOf head with
  | false => simp [Analyzer.analyzeElf, hmagic]
  | true =>
      cases elf with
      | none => simp [Analyzer.analyzeElf, hmagic]
      | some file => exact (analyzeElf_some file hmagic).1

theorem mem_elfAnomalies {elf : Option ElfFile} {head : Bytes} {v : PyStr} :
    v ∈ (Analyzer.analyzeElf elf head).1.indicators ↔
      IsElf head ∧ ∃ file ∈ elf, v ∈ elfMarks file := by
  cases hmagic : Analyzer.elfMagic.isPrefixOf head with
  | false => simp [Analyzer.analyzeElf, IsElf, hmagic]
  | true =>
      cases elf with
      | none => simp [Analyzer.analyzeElf, hmagic]
      | some file => simp [(analyzeElf_some file hmagic).2.1, IsElf, hmagic]

/-- The exception of pyelftools says that the file is malformed. -/
theorem malformed_iff {elf : Option ElfFile} {head : Bytes} :
    (∃ e ∈ (Analyzer.analyzeElf elf head).2.2, e.code = py "MALFORMED_ELF") ↔
      IsElf head ∧ ∃ file ∈ elf, ∃ text, failure file = some (.malformed text) := by
  cases hmagic : Analyzer.elfMagic.isPrefixOf head with
  | false => simp [Analyzer.analyzeElf, IsElf, hmagic]
  | true =>
      cases elf with
      | none => simp [Analyzer.analyzeElf, hmagic]
      | some file =>
          rw [(analyzeElf_some file hmagic).2.2]
          cases hfailure : failure file with
          | none => simp [hfailure]
          | some e => cases e <;> simp [hfailure, IsElf, hmagic, ElfError.problem, py_inj]

/-! ### Which rule a mark is for -/

def sectionPrefix : PyStr := py "WRITABLE_EXECUTABLE_SECTION:"

def segmentPrefix : PyStr := py "WRITABLE_EXECUTABLE_SEGMENT:"

theorem sectionMark_ne_nil {row : ElfSection} (h : row.writableExecutable = true) (j : Nat) :
    sectionMark row j ≠ [] := by
  rw [sectionMark, if_pos h]
  exact List.cons_ne_nil _ _

theorem segmentMark_ne_nil {row : ElfSegment} (h : row.writableExecutable = true) (j : Nat) :
    segmentMark row j ≠ [] := by
  rw [segmentMark, if_pos h]
  exact List.cons_ne_nil _ _

theorem mem_sectionMark {row : ElfSection} {j : Nat} {v : PyStr} (h : v ∈ sectionMark row j) :
    row.writableExecutable = true ∧ sectionPrefix <+: v := by
  rw [sectionMark] at h
  split at h
  · next hrow =>
    obtain rfl := List.mem_singleton.1 h
    exact ⟨hrow, List.prefix_append ..⟩
  · cases h

theorem mem_segmentMark {row : ElfSegment} {j : Nat} {v : PyStr} (h : v ∈ segmentMark row j) :
    row.writableExecutable = true ∧ segmentPrefix <+: v := by
  rw [segmentMark] at h
  split at h
  · next hrow =>
    obtain rfl := List.mem_singleton.1 h
    exact ⟨hrow, List.prefix_append ..⟩
  · cases h

/-- What a mark stands for. -/
theorem mem_elfMarks {file : ElfFile} {v : PyStr} (h : v ∈ elfMarks file) :
    v = py "ELF_ENTRY_POINT_ZERO" ∧ file.opened = .ok 0 ∨
    sectionPrefix <+: v ∧ (∃ row ∈ sectionsRead file, row.writableExecutable = true) ∨
    segmentPrefix <+: v ∧ (∃ row ∈ segmentsRead file, row.writableExecutable = true) ∨
    v = py "ELF_NO_SECTION_HEADERS" ∧ failure file = none ∧ file.sections = [] := by
  rw [elfMarks, List.mem_append, List.mem_append, List.mem_append] at h
  rcases h with ((h | h) | h) | h
  · rw [List.mem_ite_nil_right, List.mem_singleton] at h
    refine .inl ⟨h.2, ?_⟩
    cases hopened : file.opened with
    | error e => simp [hopened, Except.toOption] at h
    | ok entry => simpa [hopened, Except.toOption] using h.1
  · obtain ⟨row, hmem, j, hmark⟩ := mem_marks h
    obtain ⟨hrow, hpre⟩ := mem_sectionMark hmark
    exact .inr (.inl ⟨hpre, row, hmem, hrow⟩)
  · obtain ⟨row, hmem, j, hmark⟩ := mem_marks h
    obtain ⟨hrow, hpre⟩ := mem_segmentMark hmark
    exact .inr (.inr (.inl ⟨hpre, row, hmem, hrow⟩))
  · rw [List.mem_ite_nil_right, List.mem_singleton] at h
    exact .inr (.inr (.inr ⟨h.2, h.1⟩))

theorem prefix_eq {p q v : PyStr} (hlen : p.length = q.length) (hp : p <+: v) (hq : q <+: v) :
    p = q :=
  (List.prefix_of_prefix_length_le hp hq hlen.le).eq_of_length hlen

/-- The names of the sections cannot stand for another mark. -/
theorem prefixes_apart : ¬ sectionPrefix <+: py "ELF_ENTRY_POINT_ZERO" ∧
    ¬ sectionPrefix <+: py "ELF_NO_SECTION_HEADERS" ∧ ¬ segmentPrefix <+: py "ELF_ENTRY_POINT_ZERO" ∧
    ¬ segmentPrefix <+: py "ELF_NO_SECTION_HEADERS" ∧ sectionPrefix ≠ segmentPrefix ∧
    sectionPrefix.length = segmentPrefix.length := by decide +kernel

theorem entryPointZero_iff {file : ElfFile} :
    py "ELF_ENTRY_POINT_ZERO" ∈ elfMarks file ↔ file.opened = .ok 0 := by
  obtain ⟨hsection, -, hsegment, -⟩ := prefixes_apart
  constructor
  · intro h
    rcases mem_elfMarks h with ⟨-, hopened⟩ | ⟨hpre, -⟩ | ⟨hpre, -⟩ | ⟨heq, -⟩
    · exact hopened
    · exact absurd hpre hsection
    · exact absurd hpre hsegment
    · exact absurd (py_injective heq) (by decide)
  · intro hopened
    simp [elfMarks, hopened, Except.toOption]

theorem noSectionHeaders_iff {file : ElfFile} :
    py "ELF_NO_SECTION_HEADERS" ∈ elfMarks file ↔ failure file = none ∧ file.sections = [] := by
  obtain ⟨-, hsection, -, hsegment, -⟩ := prefixes_apart
  constructor
  · intro h
    rcases mem_elfMarks h with ⟨heq, -⟩ | ⟨hpre, -⟩ | ⟨hpre, -⟩ | ⟨-, hnone⟩
    · exact absurd (py_injective heq) (by decide)
    · exact absurd hpre hsection
    · exact absurd hpre hsegment
    · exact hnone
  · intro hnone
    simp [elfMarks, hnone]

theorem writableSection_iff {file : ElfFile} :
    (∃ v ∈ elfMarks file, sectionPrefix <+: v) ↔
      ∃ row ∈ sectionsRead file, row.writableExecutable = true := by
  obtain ⟨hzero, hnone, -, -, hne, hlen⟩ := prefixes_apart
  constructor
  · rintro ⟨v, hv, hpre⟩
    rcases mem_elfMarks hv with ⟨rfl, -⟩ | ⟨-, hrow⟩ | ⟨hpre', -⟩ | ⟨rfl, -⟩
    · exact absurd hpre hzero
    · exact hrow
    · exact absurd (prefix_eq hlen hpre hpre') hne
    · exact absurd hpre hnone
  · rintro ⟨row, hmem, hrow⟩
    obtain ⟨v, hv⟩ := List.exists_mem_of_ne_nil _
      (marks_ne_nil sectionMark 0 hmem (sectionMark_ne_nil hrow))
    obtain ⟨_, _, j, hmark⟩ := mem_marks hv
    refine ⟨v, ?_, (mem_sectionMark hmark).2⟩
    rw [elfMarks, List.mem_append, List.mem_append, List.mem_append]
    exact .inl (.inl (.inr hv))

theorem writableSegment_iff {file : ElfFile} :
    (∃ v ∈ elfMarks file, segmentPrefix <+: v) ↔
      ∃ row ∈ segmentsRead file, row.writableExecutable = true := by
  obtain ⟨-, -, hzero, hnone, hne, hlen⟩ := prefixes_apart
  constructor
  · rintro ⟨v, hv, hpre⟩
    rcases mem_elfMarks hv with ⟨rfl, -⟩ | ⟨hpre', -⟩ | ⟨-, hrow⟩ | ⟨rfl, -⟩
    · exact absurd hpre hzero
    · exact absurd (prefix_eq hlen hpre' hpre) hne
    · exact hrow
    · exact absurd hpre hnone
  · rintro ⟨row, hmem, hrow⟩
    obtain ⟨v, hv⟩ := List.exists_mem_of_ne_nil _
      (marks_ne_nil segmentMark 0 hmem (segmentMark_ne_nil hrow))
    obtain ⟨_, _, j, hmark⟩ := mem_marks hv
    refine ⟨v, ?_, (mem_segmentMark hmark).2⟩
    rw [elfMarks, List.mem_append, List.mem_append, List.mem_append]
    exact .inl (.inr hv)

/-! ## The mode and the path -/

/-- `v` is in `s` if `s` is there at all. -/
theorem permission_iff (posix : Bool) (m : Metadata) :
    (Rule.suidBitSet.text ∈ Analyzer.permissionIndicators posix m ↔
      posix = true ∧ m.has 0o4000 = true) ∧
    (Rule.sgidBitSet.text ∈ Analyzer.permissionIndicators posix m ↔
      posix = true ∧ m.has 0o2000 = true) ∧
    (Rule.worldWritable.text ∈ Analyzer.permissionIndicators posix m ↔
      posix = true ∧ m.has 0o2 = true) ∧
    (Rule.worldWritableAndExecutable.text ∈ Analyzer.permissionIndicators posix m ↔
      posix = true ∧ m.has 0o2 = true ∧ m.has 0o1 = true) := by
  simp [Analyzer.permissionIndicators, Rule.text, List.mem_ite_nil_right, py_inj, and_assoc]

/-- An absolute path as `pathlib` has it. -/
structure WellFormed (path : PurePath) : Prop where
  slashes : path.slashes = 1 ∨ path.slashes = 2
  ne_nil : ∀ part ∈ path.parts, part ≠ []
  slash : ∀ part ∈ path.parts, 47 ∉ part

/-- The path leads into the directory. -/
def LeadsInto (path : PurePath) (directory : List PyStr) : Prop :=
  path.slashes = 1 ∧ directory <+: path.parts

theorem splitSlash_text {path : PurePath} (h : WellFormed path) :
    splitSlash path.text =
      List.replicate path.slashes [] ++ if path.parts = [] then [[]] else path.parts := by
  have hslashed : ∀ n, splitSlash (slashed n path.parts) =
      List.replicate n [] ++ if path.parts = [] then [[]] else path.parts := by
    intro n
    induction n with
    | zero =>
        by_cases hne : path.parts = []
        · rw [hne]
          rfl
        · rw [if_neg hne]
          exact splitSlash_join hne h.slash
    | succ n ih =>
        show splitSlash (47 :: slashed n path.parts) = _
        rw [splitSlash, if_pos rfl, ih]
        rfl
  exact hslashed path.slashes

theorem isUnder_iff {path : PurePath} (h : WellFormed path) {root : String} {rs : List PyStr}
    (hroot : py root = slashed 1 rs) (hrs : rs ≠ []) (hplain : ∀ r ∈ rs, PlainName r) :
    Analyzer.isUnder path.text root = true ↔ LeadsInto path rs := by
  have hwf : WellFormed ⟨1, rs⟩ :=
    ⟨.inl rfl, fun r hr => (hplain r hr).ne_nil, fun r hr => (hplain r hr).slash⟩
  have hsplit : splitSlash (py root) = [] :: rs := by
    rw [hroot]
    refine (splitSlash_text hwf).trans ?_
    rw [if_neg hrs]
    rfl
  -- the pieces of a path that continues the root
  have hinto : ∀ rest, splitSlash path.text = [] :: rs ++ rest → LeadsInto path rs := by
    intro rest hrest
    rw [splitSlash_text h] at hrest
    obtain ⟨r, rs', rfl⟩ := List.exists_cons_of_ne_nil hrs
    have hr := (hplain r List.mem_cons_self).ne_nil
    rcases h.slashes with hone | htwo
    · refine ⟨hone, rest, ?_⟩
      rw [hone] at hrest
      have hparts : (if path.parts = [] then [[]] else path.parts) = r :: rs' ++ rest :=
        (List.cons.inj hrest).2
      by_cases hne : path.parts = []
      · rw [if_pos hne] at hparts
        exact absurd (List.cons.inj hparts).1.symm hr
      · rw [if_neg hne] at hparts
        exact hparts.symm
    · rw [htwo] at hrest
      exact absurd (List.cons.inj (List.cons.inj hrest).2).1.symm hr
  rw [Analyzer.isUnder, Bool.or_eq_true, decide_eq_true_iff, List.isPrefixOf_iff_prefix]
  constructor
  · rintro (heq | ⟨rest, heq⟩)
    · exact hinto [] (by rw [heq, hsplit, List.append_nil])
    · refine hinto (splitSlash rest) ?_
      rw [← heq, List.append_assoc]
      exact (splitSlash_append _ _).trans (by rw [hsplit]; rfl)
  · rintro ⟨hone, rest, hparts⟩
    rw [PurePath.text, hone, ← hparts, hroot]
    by_cases hrest : rest = []
    · rw [hrest, List.append_nil]
      exact .inl rfl
    · rw [slashed_append hrs hrest]
      exact .inr ⟨List.intercalate [47] rest, by simp [py]⟩

theorem context_iff (platform : Platform) {path : PurePath} (h : WellFormed path) :
    (Rule.temporaryDirectory.text ∈ Analyzer.contextIndicators platform path ↔
      LeadsInto path [py "tmp"] ∨ LeadsInto path [py "var", py "tmp"]) ∧
    (Rule.downloadDirectory.text ∈ Analyzer.contextIndicators platform path ↔
      ∃ part ∈ path.parts, platform.casefold part ∈ [py "downloads", py "indirilenler"]) ∧
    (Rule.removableOrMountedMedia.text ∈ Analyzer.contextIndicators platform path ↔
      LeadsInto path [py "media"] ∨ LeadsInto path [py "run", py "media"] ∨
        LeadsInto path [py "mnt"]) ∧
    (Rule.hiddenPathComponent.text ∈ Analyzer.contextIndicators platform path ↔
      ∃ part ∈ path.parts, py "." <+: part ∧ part ≠ py "." ∧ part ≠ py "..") := by
  have hunder : ∀ (root : String) (rs : List PyStr), py root = slashed 1 rs ∧ rs ≠ [] ∧
      (∀ r ∈ rs, r ≠ [] ∧ r ≠ py "." ∧ r ≠ py ".." ∧ 47 ∉ r) →
      (Analyzer.isUnder path.text root = true ↔ LeadsInto path rs) := by
    rintro root rs ⟨hroot, hrs, hplain⟩
    exact isUnder_iff h hroot hrs fun r hr =>
      ⟨(hplain r hr).1, (hplain r hr).2.1, (hplain r hr).2.2.1, (hplain r hr).2.2.2⟩
  have htmp := hunder "/tmp" [py "tmp"] (by decide +kernel)
  have hvar := hunder "/var/tmp" [py "var", py "tmp"] (by decide +kernel)
  have hmedia := hunder "/media" [py "media"] (by decide +kernel)
  have hrun := hunder "/run/media" [py "run", py "media"] (by decide +kernel)
  have hmnt := hunder "/mnt" [py "mnt"] (by decide +kernel)
  have hhidden : Analyzer.hiddenComponents path ≠ [] ↔
      ∃ part ∈ path.parts, py "." <+: part ∧ part ≠ py "." ∧ part ≠ py ".." := by
    rw [Analyzer.hiddenComponents, ne_eq, List.filter_eq_nil_iff]
    simp [List.isPrefixOf_iff_prefix]
  simp [Analyzer.contextIndicators, Analyzer.locationCategories, Rule.text, List.mem_ite_nil_right,
    py_inj, htmp, hvar, hmedia, hrun, hmnt, hhidden, or_assoc]

/-! ## The scan -/

/-- The result as the engine reads it. -/
def ofReport (r : ScanReport F) : StaticScanResult F where
  status := r.status
  fileSize := r.fileSize.elim .null fun n => .int n
  mimeType := r.mimeType
  isElf := r.elf.isElf
  blockEntropies := r.blockEntropies
  wholeFileEntropy := (lookup (py "whole_file_entropy") r.entropySummary).getD .null
  fileIdentity := r.fileIdentity
  identitySource := r.identitySource
  filepath := r.filepath
  extension := r.extension
  mimeExtensionConsistency := r.mimeExtensionConsistency.text
  expectedMimeTypes := r.expectedMimeTypes
  elfAnomalies := r.elf.indicators
  permissionDetails := r.permissionDetails
  permissionAnomalies := r.permissionAnomalies
  pathContext := r.pathContext
  pathIndicators := r.pathIndicators
  entropySummary := r.entropySummary
  errors := r.errors.map fun e => [(py "code", .str e.code), (py "message", .str e.message)]

/-- The scan gets to the content: it has the stat of a regular file, which was not reached through a
    link, and the first bytes. -/
structure Opened (probe : Probe F) (trustedOpenFd : Bool) (m : Metadata) (head : Bytes) : Prop where
  stat : probe.stat = .ok m
  followed : trustedOpenFd = true ∨ m.isSymlink = false
  regular : m.isRegular = true
  head : probe.head = .ok head

theorem Opened.unique {probe : Probe F} {trustedOpenFd : Bool} {m m' : Metadata} {head head' : Bytes}
    (h : Opened probe trustedOpenFd m head) (h' : Opened probe trustedOpenFd m' head') :
    m = m' ∧ head = head' :=
  ⟨Except.ok.inj (h.stat.symm.trans h'.stat), Except.ok.inj (h.head.symm.trans h'.head)⟩

section Scan

variable (platform : Platform) (probe : Probe F) (context : PurePath) (m : Metadata) (head : Bytes)

/-- The verdict of `evaluate_mime_extension`. -/
def mimeVerdict : Consistency :=
  (Analyzer.evaluateMimeExtension (platform.chars.lower (Analyzer.suffix context))
    (Analyzer.detectMime platform probe.magic context head).1.1 (Analyzer.elfMagic.isPrefixOf head)
    (Analyzer.Pe.analyzePe platform.chars probe.pe (some head)).result.isPe).1

/-- What the scan has found. -/
structure Describes (r : ScanReport F) : Prop where
  status : r.status ≠ .error
  elf : r.elf = (Analyzer.analyzeElf probe.elf head).1
  malformed : (∃ e ∈ r.errors, e.code = py "MALFORMED_ELF") ↔
    ∃ e ∈ (Analyzer.analyzeElf probe.elf head).2.2, e.code = py "MALFORMED_ELF"
  consistency : r.mimeExtensionConsistency = mimeVerdict platform probe context head
  permission : r.permissionAnomalies = Analyzer.permissionIndicators platform.posix m
  path : r.pathIndicators = Analyzer.contextIndicators platform context ++
    if mimeVerdict platform probe context head = .inconsistent then
      [py "MIME_EXTENSION_INCONSISTENT"] else []
  entropy : r.entropyReport = probe.entropy.toOption

end Scan

variable {platform : Platform} {probe : Probe F} {context : PurePath} {m : Metadata} {head : Bytes}
  {trustedOpenFd : Bool} {r : ScanReport F}

/-- The end of a scan of the content. -/
theorem scan_describes (h : Analyzer.scan platform probe context trustedOpenFd = .ok r)
    (hopened : Opened probe trustedOpenFd m head) : Describes platform probe context m head r := by
  have hlink : (!trustedOpenFd && m.isSymlink) = false := by
    rcases hopened.followed with htrusted | hlink
    · simp [htrusted]
    · simp [hlink]
  simp only [Analyzer.scan, hopened.stat, hlink, hopened.regular, Analyzer.scanContent, hopened.head,
    Bool.not_true, Bool.false_eq_true, if_false, analyzeElf_isElf] at h
  have hfinished : ∀ c : Prop, [Decidable c] →
      (if c then Analyzer.ScanStatus.ok else .partialScan) ≠ .error := by
    intro c _
    split <;> simp
  cases hentropy : probe.entropy with
  | ok report =>
      rw [hentropy] at h
      obtain rfl := Except.ok.inj h
      exact ⟨hfinished _, rfl, by simp, rfl, rfl, rfl, by rw [hentropy]; rfl⟩
  | error e =>
      cases e with
      | analysis text =>
          rw [hentropy] at h
          obtain rfl := Except.ok.inj h
          exact ⟨hfinished _, rfl, by simp [Analyzer.ScanReport.stopped, py_inj, or_and_right,
            exists_or], rfl, rfl, rfl, by rw [hentropy]; rfl⟩
      | raised e =>
          rw [hentropy] at h
          cases h

/-- A scan that does not get to the content ends as an error. -/
theorem scan_stopped (h : Analyzer.scan platform probe context trustedOpenFd = .ok r)
    (hnone : ∀ m head, ¬ Opened probe trustedOpenFd m head) : r.status = .error := by
  unfold Analyzer.scan at h
  split at h
  · obtain rfl := Except.ok.inj h
    rfl
  · obtain rfl := Except.ok.inj h
    rfl
  · obtain rfl := Except.ok.inj h
    rfl
  · cases h
  · next m hstat =>
    by_cases hlink : (!trustedOpenFd && m.isSymlink) = true
    · rw [if_pos hlink] at h
      obtain rfl := Except.ok.inj h
      rfl
    rw [if_neg hlink] at h
    by_cases hregular : (!m.isRegular) = true
    · rw [if_pos hregular] at h
      obtain rfl := Except.ok.inj h
      rfl
    rw [if_neg hregular] at h
    unfold Analyzer.scanContent at h
    split at h
    · obtain rfl := Except.ok.inj h
      rfl
    · next head hhead =>
      refine absurd ⟨hstat, ?_, ?_, hhead⟩ (hnone m head)
      · cases trustedOpenFd with
        | false => exact .inr (by simpa using hlink)
        | true => exact .inl rfl
      · simpa using hregular

/-! ## The rules -/

section Rules

variable [OrderedFloat F]

/-- A value of the entropy report, zero without a report. -/
def entropyOf (probe : Probe F) (value : Analyzer.Entropy.EntropyReport F → F) : F :=
  match probe.entropy with
  | .ok report => value report
  | .error _ => PyFloat.ofToken (py "0.0")

/-- The threshold of the rule is at most the value. -/
def Reached (policy : ScoringPolicy F) (rule : Rule) (value : F) : Prop :=
  ∃ least, policy.threshold rule = .ok least ∧ OrderedFloat.le least value = true

/-- **What there is about a file for a rule.** -/
def Shows (policy : ScoringPolicy F) (platform : Platform) (probe : Probe F) (context : PurePath)
    (m : Metadata) (head : Bytes) : Rule → Prop
  | .highWholeFileEntropy =>
      Reached policy .highWholeFileEntropy (entropyOf probe fun report => report.wholeFileEntropy)
  | .highEntropyBlockRatio =>
      Reached policy .highEntropyBlockRatio (entropyOf probe fun report => report.highEntropyBlockRatio)
  | .mimeExtensionInconsistent =>
      let extension := platform.chars.lower (Analyzer.suffix context)
      let expected := Analyzer.extensionMimeRules extension
      extension ≠ [] ∧
        ((Analyzer.Pe.analyzePe platform.chars probe.pe (some head)).result.isPe = true ∧
            extension ∈ Analyzer.peDisguiseExtensions ∨
          IsElf head ∧ extension ∈ Analyzer.obviousContentExtensions ∨
          expected ≠ [] ∧ (Analyzer.detectMime platform probe.magic context head).1.1 ∉ expected)
  | .malformedElf =>
      IsElf head ∧ ∃ file ∈ probe.elf, ∃ text, failure file = some (.malformed text)
  | .writableExecutableSection =>
      IsElf head ∧ ∃ file ∈ probe.elf, ∃ row ∈ sectionsRead file, row.writableExecutable = true
  | .writableExecutableSegment =>
      IsElf head ∧ ∃ file ∈ probe.elf, ∃ row ∈ segmentsRead file, row.writableExecutable = true
  | .elfEntryPointZero => IsElf head ∧ ∃ file ∈ probe.elf, file.opened = .ok 0
  | .elfNoSectionHeaders =>
      IsElf head ∧ ∃ file ∈ probe.elf, failure file = none ∧ file.sections = []
  | .suidBitSet => platform.posix = true ∧ m.has 0o4000 = true
  | .sgidBitSet => platform.posix = true ∧ m.has 0o2000 = true
  | .worldWritableAndExecutable =>
      platform.posix = true ∧ m.has 0o2 = true ∧ m.has 0o1 = true
  | .worldWritable => platform.posix = true ∧ m.has 0o2 = true ∧ m.has 0o1 = false
  | .temporaryDirectory => LeadsInto context [py "tmp"] ∨ LeadsInto context [py "var", py "tmp"]
  | .downloadDirectory =>
      ∃ part ∈ context.parts, platform.casefold part ∈ [py "downloads", py "indirilenler"]
  | .removableOrMountedMedia =>
      LeadsInto context [py "media"] ∨ LeadsInto context [py "run", py "media"] ∨
        LeadsInto context [py "mnt"]
  | .hiddenPathComponent =>
      ∃ part ∈ context.parts, py "." <+: part ∧ part ≠ py "." ∧ part ≠ py ".."

variable {policy : ScoringPolicy F}

theorem mimeVerdict_iff :
    mimeVerdict platform probe context head = .inconsistent ↔
      Shows policy platform probe context m head .mimeExtensionInconsistent := by
  unfold mimeVerdict Analyzer.evaluateMimeExtension Shows IsElf
  dsimp only
  split_ifs <;> simp_all

theorem entropy_of_report (hentropy : r.entropyReport = probe.entropy.toOption) :
    (ofReport r).entropy "whole_file_entropy" =
        .ok (entropyOf probe fun report => report.wholeFileEntropy) ∧
      (ofReport r).entropy "high_entropy_block_ratio" =
        .ok (entropyOf probe fun report => report.highEntropyBlockRatio) := by
  have hsummary : (ofReport r).entropySummary = r.entropySummary := rfl
  unfold StaticScanResult.entropy entropyOf
  rw [hsummary, Analyzer.ScanReport.entropySummary, hentropy]
  cases probe.entropy with
  | error e => exact ⟨rfl, rfl⟩
  | ok report => exact ⟨rfl, rfl⟩

theorem reaches_iff {scan : StaticScanResult F} {rule : Rule} {key : String} {value : F}
    (hvalue : scan.entropy key = .ok value) :
    policy.reaches scan rule key = true ↔ Reached policy rule value := by
  rw [ScoringPolicy.reaches, hvalue, Reached]
  cases policy.threshold rule with
  | error e => simp
  | ok least => simp

/-- The checks that can trigger a rule, one for each. -/
theorem mem_triggered_iff (scan : StaticScanResult F) (rule : Rule) :
    rule ∈ policy.triggered scan ↔
      match rule with
      | .highWholeFileEntropy => policy.reaches scan .highWholeFileEntropy "whole_file_entropy" = true
      | .highEntropyBlockRatio =>
          policy.reaches scan .highEntropyBlockRatio "high_entropy_block_ratio" = true
      | .mimeExtensionInconsistent => scan.mimeExtensionConsistency = py "INCONSISTENT"
      | .malformedElf => Rule.malformedElf.text ∈ scan.errorCodes []
      | .writableExecutableSection => ∃ v ∈ scan.elfAnomalies, sectionPrefix <+: v
      | .writableExecutableSegment => ∃ v ∈ scan.elfAnomalies, segmentPrefix <+: v
      | .elfEntryPointZero => Rule.elfEntryPointZero.text ∈ scan.elfAnomalies
      | .elfNoSectionHeaders => Rule.elfNoSectionHeaders.text ∈ scan.elfAnomalies
      | .suidBitSet => Rule.suidBitSet.text ∈ scan.permissionAnomalies
      | .sgidBitSet => Rule.sgidBitSet.text ∈ scan.permissionAnomalies
      | .worldWritableAndExecutable =>
          Rule.worldWritableAndExecutable.text ∈ scan.permissionAnomalies
      | .worldWritable => Rule.worldWritable.text ∈ scan.permissionAnomalies ∧
          Rule.worldWritableAndExecutable.text ∉ scan.permissionAnomalies
      | .temporaryDirectory => Rule.temporaryDirectory.text ∈ scan.pathIndicators
      | .downloadDirectory => Rule.downloadDirectory.text ∈ scan.pathIndicators
      | .removableOrMountedMedia => Rule.removableOrMountedMedia.text ∈ scan.pathIndicators
      | .hiddenPathComponent => Rule.hiddenPathComponent.text ∈ scan.pathIndicators := by
  have hprefix : ∀ (pre : String), matchingPrefix scan.elfAnomalies (py pre) ≠ [] ↔
      ∃ v ∈ scan.elfAnomalies, py pre <+: v := by
    intro pre
    rw [matchingPrefix_ne_nil]
    simp only [List.isPrefixOf_iff_prefix]
  cases rule <;>
    simp [ScoringPolicy.triggered, ScoringPolicy.entropyRules, mem_fired, staticFindings,
      contextFindings, exact, anyPrefix, List.mem_ite_nil_right, hprefix, sectionPrefix, segmentPrefix,
      List.mem_insertionSort]

/-- A rule is triggered exactly if the file shows it, whatever its sections are called. -/
theorem triggered_iff_shows (hpath : WellFormed context)
    (hscan : Analyzer.scan platform probe context trustedOpenFd = .ok r)
    (hopened : Opened probe trustedOpenFd m head) (rule : Rule) :
    rule ∈ policy.triggered (ofReport r) ↔ Shows policy platform probe context m head rule := by
  have h := scan_describes hscan hopened
  have hanomalies : (ofReport r).elfAnomalies = (Analyzer.analyzeElf probe.elf head).1.indicators := by
    show r.elf.indicators = _
    rw [h.elf]
  have hpermission : (ofReport r).permissionAnomalies =
      Analyzer.permissionIndicators platform.posix m := h.permission
  obtain ⟨hsuid, hsgid, hworld, hboth⟩ := permission_iff platform.posix m
  obtain ⟨htemporary, hdownload, hmedia, hhidden⟩ := context_iff platform hpath
  -- the indicator of the extension is none of the four of the path
  have hindicator : ∀ name : String, name ≠ "MIME_EXTENSION_INCONSISTENT" →
      (py name ∈ (ofReport r).pathIndicators ↔
        py name ∈ Analyzer.contextIndicators platform context) := by
    intro name hname
    show py name ∈ r.pathIndicators ↔ _
    rw [h.path, List.mem_append, List.mem_ite_nil_right, List.mem_singleton, py_inj]
    exact or_iff_left fun hsame => hname hsame.2
  obtain ⟨hwhole, hratio⟩ := entropy_of_report h.entropy
  rw [mem_triggered_iff]
  cases rule with
  | highWholeFileEntropy => exact reaches_iff hwhole
  | highEntropyBlockRatio => exact reaches_iff hratio
  | mimeExtensionInconsistent =>
      rw [← mimeVerdict_iff (m := m), ← h.consistency]
      show r.mimeExtensionConsistency.text = _ ↔ _
      cases r.mimeExtensionConsistency <;> simp [Consistency.text, py_inj]
  | malformedElf =>
      rw [Shows, ← malformed_iff, ← h.malformed]
      simp [StaticScanResult.errorCodes, ofReport, Rule.text, lookup, pyStr]
  | writableExecutableSection =>
      simp only [Shows, hanomalies, mem_elfAnomalies, ← writableSection_iff]
      constructor
      · rintro ⟨v, ⟨hmagic, file, hfile, hv⟩, hpre⟩
        exact ⟨hmagic, file, hfile, v, hv, hpre⟩
      · rintro ⟨hmagic, file, hfile, v, hv, hpre⟩
        exact ⟨v, ⟨hmagic, file, hfile, hv⟩, hpre⟩
  | writableExecutableSegment =>
      simp only [Shows, hanomalies, mem_elfAnomalies, ← writableSegment_iff]
      constructor
      · rintro ⟨v, ⟨hmagic, file, hfile, hv⟩, hpre⟩
        exact ⟨hmagic, file, hfile, v, hv, hpre⟩
      · rintro ⟨hmagic, file, hfile, v, hv, hpre⟩
        exact ⟨v, ⟨hmagic, file, hfile, hv⟩, hpre⟩
  | elfEntryPointZero =>
      simp only [Shows, hanomalies, mem_elfAnomalies, Rule.text, entryPointZero_iff]
  | elfNoSectionHeaders =>
      simp only [Shows, hanomalies, mem_elfAnomalies, Rule.text, noSectionHeaders_iff]
  | suidBitSet => exact hpermission ▸ hsuid
  | sgidBitSet => exact hpermission ▸ hsgid
  | worldWritableAndExecutable => exact hpermission ▸ hboth
  | worldWritable =>
      simp only [Shows, hpermission, hworld, hboth]
      cases m.has 0o1 <;> simp
  | temporaryDirectory => exact (hindicator _ (by decide)).trans htemporary
  | downloadDirectory => exact (hindicator _ (by decide)).trans hdownload
  | removableOrMountedMedia => exact (hindicator _ (by decide)).trans hmedia
  | hiddenPathComponent => exact (hindicator _ (by decide)).trans hhidden

/-- **From the file to the score.** A loaded policy with all rules scores every scan that returns: zero, with
    monitoring, where the scan does not get to the content of the file, and else by the rules that the file
    shows. -/
theorem score_of_scan {describe : ScoringError → PyStr} {data : Mapping F}
    (hload : fromMapping describe data = .ok policy) (hrules : ∀ rule, policy.Has rule)
    (hwhole : policy.HasThreshold .highWholeFileEntropy)
    (hratio : policy.HasThreshold .highEntropyBlockRatio) (hpath : WellFormed context)
    (hscan : Analyzer.scan platform probe context trustedOpenFd = .ok r) :
    ∃ result, policy.score (ofReport r) = .ok result ∧
      ((∀ m head, ¬ Opened probe trustedOpenFd m head) →
        result.score = 0 ∧ result.decision = .allowMonitor) ∧
      ∀ m head, Opened probe trustedOpenFd m head → ∀ shown : Finset Rule,
        (∀ rule, rule ∈ shown ↔ Shows policy platform probe context m head rule) →
        result.score = min 100 (max 0 (policy.weighing.total shown)) ∧
        result.decision = policy.verdict result.score (policy.weighing.capped shown .static) ∧
        ∀ name, name ∈ result.indicators.map ScoreIndicator.rule ↔
          ∃ rule ∈ shown, rule.text = name := by
  have hpolicy := ScoringPolicy.accepted (fromMapping_ok hload)
  by_cases hnone : ∀ m head, ¬ Opened probe trustedOpenFd m head
  · have hstatus : (ofReport r).status = .error := scan_stopped hscan hnone
    rw [ScoringPolicy.score, if_pos hstatus]
    exact ⟨_, rfl, fun _ => ⟨rfl, rfl⟩, fun m head hopened => absurd hopened (hnone m head)⟩
  · push Not at hnone
    obtain ⟨m, head, hopened⟩ := hnone
    have hdescribes := scan_describes hscan hopened
    have hstatus : (ofReport r).status ≠ .error := hdescribes.status
    obtain ⟨hfirst, hsecond⟩ := entropy_of_report hdescribes.entropy
    obtain ⟨entropy, hentropy⟩ := ScoringPolicy.collectEntropy_isOk.2
      ⟨isOk_iff.2 ⟨_, hfirst⟩, isOk_iff.2 ⟨_, hsecond⟩, hwhole, hratio⟩
    obtain ⟨static, hstatic⟩ := ScoringPolicy.collect_isOk.2
      (fun rule _ => hrules rule : ∀ rule ∈ fired (staticFindings (ofReport r)), policy.Has rule)
    obtain ⟨about, habout⟩ := ScoringPolicy.collect_isOk.2
      (fun rule _ => hrules rule : ∀ rule ∈ fired (contextFindings (ofReport r)), policy.Has rule)
    have hindicates := List.rel_append (List.rel_append (ScoringPolicy.collectEntropy_ok hentropy)
      (ScoringPolicy.collect_ok hstatic)) (ScoringPolicy.collect_ok habout)
    obtain ⟨result, hresult⟩ := hpolicy.scoreIndicators_isOk hindicates (ofReport r).status
    have hscore : policy.score (ofReport r) = .ok result := by
      rw [ScoringPolicy.score, if_neg hstatus]
      exact bind_ok.2 ⟨entropy, hentropy, bind_ok.2 ⟨static, hstatic,
        bind_ok.2 ⟨about, habout, hresult⟩⟩⟩
    have hscored := score_ok hpolicy hstatus hscore
    refine ⟨result, hscore, fun hnone => absurd hopened (hnone m head), ?_⟩
    intro m' head' hopened' shown hshown
    obtain ⟨rfl, rfl⟩ := hopened.unique hopened'
    have hsame : (policy.triggered (ofReport r)).toFinset = shown := by
      ext rule
      rw [List.mem_toFinset, hshown, triggered_iff_shows hpath hscan hopened]
    refine ⟨?_, ?_, fun name => ?_⟩
    · rw [← hsame]
      exact hscored.score
    · rw [← hsame]
      exact hscored.decision
    · rw [hscored.rules.mem_iff, List.mem_map, ← hsame]
      simp only [List.mem_toFinset]

end Rules

/-! ## A set-user-id file in a temporary directory -/

def allRules : List Rule :=
  [.highWholeFileEntropy, .highEntropyBlockRatio, .mimeExtensionInconsistent, .malformedElf,
    .writableExecutableSection, .writableExecutableSegment, .elfEntryPointZero, .elfNoSectionHeaders,
    .suidBitSet, .sgidBitSet, .worldWritableAndExecutable, .worldWritable, .temporaryDirectory,
    .downloadDirectory, .removableOrMountedMedia, .hiddenPathComponent]

/-- A configuration that has all rules. -/
def fullData : Mapping SampleFloat :=
  assign (py "rules") (.obj (allRules.map fun rule => (rule.text, ruleData "static" 10))) entropyData

def posixPlatform : Platform where
  chars := { isPrintable := fun _ => true, lower := id }
  casefold := id
  guessType := fun _ => none
  posix := true

/-- The mode `0o104755`. -/
def suidMetadata : Metadata := ⟨0o104755, 0, 0, 4, 1, 2, 0⟩

/-- Without libmagic and pyelftools, and with an entropy engine that refuses the file. -/
def suidProbe : Probe SampleFloat where
  stat := .ok suidMetadata
  head := .ok Analyzer.elfMagic
  magic := none
  elf := none
  pe := .error (.osError [])
  entropy := .error (.analysis (py "refused"))

def temporaryPath : PurePath := ⟨1, [py "tmp", py "f"]⟩

/-- Its score names the bit. -/
theorem suid_file_scored : ∃ policy r result,
    fromMapping (fun _ => []) fullData = .ok policy ∧
    Analyzer.scan posixPlatform suidProbe temporaryPath false = .ok r ∧
    policy.score (ofReport r) = .ok result ∧
    Rule.suidBitSet.text ∈ result.indicators.map ScoreIndicator.rule := by
  have hfull : (fromMapping (fun _ => []) fullData).toOption.any (fun policy =>
      allRules.all fun rule => decide (policy.HasThreshold rule)) = true := by decide +kernel
  obtain ⟨policy, hload, hall⟩ := exists_of_any hfull
  have hthreshold : ∀ rule, policy.HasThreshold rule := by
    intro rule
    have hmem : rule ∈ allRules := by cases rule <;> decide
    exact of_decide_eq_true (List.all_eq_true.1 hall rule hmem)
  have hpath : WellFormed temporaryPath :=
    ⟨.inl rfl, by decide +kernel, by decide +kernel⟩
  have hopened : Opened suidProbe false suidMetadata Analyzer.elfMagic :=
    ⟨rfl, .inr (by decide), by decide, rfl⟩
  have hscan : Analyzer.scan posixPlatform suidProbe temporaryPath false = .ok _ := rfl
  obtain ⟨result, hscore, -, hscored⟩ := score_of_scan hload (fun rule => (hthreshold rule).has)
    (hthreshold _) (hthreshold _) hpath hscan
  have hshown := hscored _ _ hopened (policy.triggered (ofReport _)).toFinset fun rule => by
    rw [List.mem_toFinset]
    exact triggered_iff_shows hpath hscan hopened rule
  refine ⟨policy, _, result, hload, hscan, hscore, (hshown.2.2 _).2 ⟨.suidBitSet, ?_, rfl⟩⟩
  rw [List.mem_toFinset]
  exact (triggered_iff_shows hpath hscan hopened .suidBitSet).2 ⟨rfl, by decide⟩

end Elyra.Scoring
