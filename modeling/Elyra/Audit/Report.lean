import Elyra.Audit.Escape
import Elyra.Audit.Rotation

set_option autoImplicit false
set_option linter.unusedSectionVars false

/-! # The report and the recovery record

Opening a log that is not valid writes its report, and a record with the report in it. What a report
can hold (`report_facts`) bounds both: all its texts and numbers are short but the last sequence
number, which comes from the log. `Printable.encodable_iff` says when the report has a text, and
`recovery_fits` that the record is then within the size limit. -/

namespace Elyra.Audit

open Elyra.Python

variable {F : Type} [FloatNum F] {H : HexDigest}

/-! ## The names of the segments -/

theorem mem_segmentsFor {fileName name : PyStr} {data : Bytes} {dir : Dir} :
    (name, data) ∈ segmentsFor fileName dir ↔
      dir.files.get? name = some data ∧
        (name = fileName ∨ ∃ i, segmentNumber fileName name = some i) := by
  simp only [segmentsFor, List.mem_append, List.mem_map]
  constructor
  · rintro (⟨⟨i, name', data'⟩, hmem, heq⟩ | hactive)
    · simp only [Prod.mk.injEq] at heq
      obtain ⟨rfl, rfl⟩ := heq
      obtain ⟨hget, hindex⟩ := mem_rotatedOf.1 hmem
      exact ⟨hget, .inr ⟨i, hindex⟩⟩
    · split at hactive
      · exact absurd hactive (by simp)
      · next hget =>
        simp only [List.mem_singleton, Prod.mk.injEq] at hactive
        obtain ⟨rfl, rfl⟩ := hactive
        exact ⟨hget, .inl rfl⟩
  · rintro ⟨hget, rfl | ⟨i, hindex⟩⟩
    · rw [hget]
      exact .inr (List.mem_singleton_self _)
    · exact .inl ⟨(i, name, data), mem_rotatedOf.2 ⟨hget, hindex⟩, rfl⟩

/-- A segment is the log file or has its name with a dot and six digits. -/
theorem segment_name {fileName name : PyStr} {data : Bytes} {dir : Dir}
    (h : (name, data) ∈ segmentsFor fileName dir) (hfile : Utf8 fileName) :
    Utf8 name ∧ name.length ≤ fileName.length + 7 := by
  rcases (mem_segmentsFor.1 h).2 with rfl | ⟨i, hindex⟩
  · exact ⟨hfile, by omega⟩
  · obtain ⟨suffix, rfl, hlen, hdigits⟩ := segmentNumber_eq_some hindex
    refine ⟨utf8_append.2 ⟨utf8_append.2 ⟨hfile, by decide⟩, utf8_of_digits hdigits⟩, ?_⟩
    simp only [List.length_append, List.length_singleton]
    omega

theorem segmentsFor_nodup (fileName : PyStr) (dir : Dir) :
    ((segmentsFor fileName dir).map Prod.fst).Nodup := by
  have hmap : (segmentsFor fileName dir).map Prod.fst =
      (rotatedOf fileName dir).map (fun r => r.2.1) ++
        (if (dir.files.get? fileName).isSome then [fileName] else []) := by
    simp only [segmentsFor, List.map_append, List.map_map]
    cases dir.files.get? fileName <;> rfl
  rw [hmap]
  refine List.nodup_append.2 ⟨rotatedOf_names fileName dir, by split <;> simp, ?_⟩
  rintro a ha b hb rfl
  obtain ⟨⟨i, n, d⟩, hmem, rfl⟩ := List.mem_map.1 ha
  split at hb
  · have hname : n = fileName := List.mem_singleton.1 hb
    have hindex := (mem_rotatedOf.1 hmem).2
    rw [hname, segmentNumber_fileName] at hindex
    exact absurd hindex (by simp)
  · exact absurd hb (by simp)

/-! ## The report -/

/-- The bytes of the segments, and one more for each segment. -/
def logSize (segments : List (PyStr × Bytes)) : Nat :=
  (segments.map (fun segment => segment.2.length + 1)).sum

theorem length_le_logSize {segments : List (PyStr × Bytes)} {segment : PyStr × Bytes}
    (h : segment ∈ segments) : segment.2.length + 1 ≤ logSize segments :=
  List.le_sum_of_mem (List.mem_map_of_mem (f := fun s : PyStr × Bytes => s.2.length + 1) h)

theorem count_le_logSize (segments : List (PyStr × Bytes)) : segments.length ≤ logSize segments := by
  induction segments with
  | nil => simp [logSize]
  | cons segment segments ih =>
      simp only [logSize, List.map_cons, List.sum_cons, List.length_cons] at ih ⊢
      omega

theorem completeLines_le_logSize (segments : List (PyStr × Bytes)) :
    (completeLines segments).length ≤ logSize segments := by
  induction segments with
  | nil => simp [completeLines]
  | cons segment segments ih =>
      simp only [completeLines]
      split
      · simp
      · have := splitlines_length segment.2
        simp only [logSize, List.map_cons, List.sum_cons, List.length_append] at ih ⊢
        omega

/-- An error whose text is made from the fixed codes and the required fields. -/
def IntegrityError.Plain (e : IntegrityError) : Prop :=
  ∀ names, e = .missingFields names → names.Sublist requiredFields

theorem IntegrityError.Plain.code {e : IntegrityError} (h : e.Plain) :
    Utf8 e.code ∧ e.code.length ≤ 200 := by
  have hnames : ∀ names ∈ requiredFields.sublists,
      Utf8 (py "MISSING_FIELDS:" ++ List.intercalate (py ",") names) ∧
        (py "MISSING_FIELDS:" ++ List.intercalate (py ",") names).length ≤ 200 := by
    decide +kernel
  cases e with
  | missingFields names => exact hnames names (List.mem_sublists.2 (h names rfl))
  | trailingPartialRecord => decide
  | invalidUtf8 => decide
  | invalidJson => decide
  | recordNotObject => decide
  | invalidHashEncoding => decide
  | previousHashMismatch => decide
  | recordHashMismatch => decide
  | nonMonotonicSequence => decide

/-- What a report of verification holds. -/
structure ReportFacts (F : Type) [FloatNum F] (H : HexDigest) (segments : List (PyStr × Bytes))
    (report : IntegrityReport) : Prop where
  first : validHexHash report.firstPrevHash = true
  last : validHexHash report.lastHash = true
  records : report.recordCount ≤ logSize segments
  count : report.segmentCount = segments.length
  error : ∀ e ∈ report.error, e.Plain
  segment : ∀ name ∈ report.errorSegment, ∃ data, (name, data) ∈ segments
  line : ∀ n ∈ report.errorLine, n ≤ logSize segments
  sequence : ChainTo F H segments report.lastSequence
  longest : ∀ last, ChainTo F H segments last → last ≤ report.lastSequence
  counted : 0 ≤ report.lastSequence

theorem report_facts {segments : List (PyStr × Bytes)} {repaired : Bool} {artifact : Option PyStr}
    {report : IntegrityReport}
    (h : verifySegments (F := F) H segments repaired artifact = .ok report) :
    ReportFacts F H segments report ∧ report.repairedTrailingPartial = repaired ∧
      report.recoveryArtifact = artifact := by
  have hadvanced := scanAll_advanced (F := F) (H := H) {} (completeLines segments)
  obtain ⟨hreached, hlongest⟩ := chainTo_final (F := F) (H := H) segments
  have hlines := completeLines_le_logSize segments
  have hstop := scanSegments_stop (F := F) (H := H) {} segments
  set final := finalScan (scanAll (F := F) H {} (completeLines segments)) with hfinal
  have hhex : final.Hex := hadvanced.hex ⟨zeroHash_hex, zeroHash_hex⟩
  have hcount : final.recordCount ≤ logSize segments := by
    have : final.recordCount ≤ 0 + (completeLines segments).length := hadvanced.count
    omega
  have hsequence : 0 ≤ final.lastSequence := hadvanced.sequence
  unfold verifySegments at h
  cases hscan : scanSegments (F := F) H {} segments with
  | ok s =>
      have hs : final = s := by
        rw [hscan] at hstop
        rcases hstop with hok | ⟨t, e, -, herror⟩
        · rw [hfinal, ← hok]
          rfl
        · exact absurd herror (by simp [Except.mapError])
      rw [hscan] at h
      simp only [Except.ok.injEq] at h
      subst h
      rw [hs] at hhex hcount hsequence hreached hlongest
      exact ⟨⟨hhex.first, hhex.last, hcount, rfl, by simp [Scan.report], by simp [Scan.report],
        by simp [Scan.report], hreached, hlongest, hsequence⟩, rfl, rfl⟩
  | error f =>
      have hs : final = f.scan := by
        rw [hscan] at hstop
        rcases hstop with herror | ⟨t, e, hok, herror⟩
        · rw [hfinal, ← herror]
          rfl
        · rw [hfinal, hok]
          simp only [Except.mapError, Failure.stop, Except.error.injEq, Prod.mk.injEq] at herror
          exact herror.1.symm
      obtain ⟨segment, hmem, hname, hline, hplain⟩ := scanSegments_failure hscan
      rw [hscan] at h
      cases hhalt : f.halt with
      | raised x =>
          simp only [hhalt] at h
          exact absurd h (by simp)
      | report e =>
          simp only [hhalt, Except.ok.injEq] at h
          subst h
          rw [hs] at hhex hcount hsequence hreached hlongest
          refine ⟨⟨hhex.first, hhex.last, hcount, rfl, ?_, ?_, ?_, hreached, hlongest, hsequence⟩,
            rfl, rfl⟩
          · rintro _ ⟨⟩ names rfl
            exact hplain names hhalt
          · rintro _ ⟨⟩
            exact ⟨segment.2, hname ▸ hmem⟩
          · rintro _ ⟨⟩
            exact hline.trans (length_le_logSize hmem)

/-! ## The limits

The number of a line or a record is below the size of the log, which no file system lets reach
`2 ^ 64`, and a path has at most 4096 characters. -/

/-- The longest path. -/
def pathMax : Nat := 4096

/-- A text that fits a record: it has a UTF-8 form and is no longer than `n`. -/
structure Fits (n : Nat) (s : PyStr) : Prop where
  text : Utf8 s
  short : s.length ≤ n

/-- The stamp of a clock that works. -/
structure Stamp.Works (stamp : Stamp F) : Prop where
  finite : PyFloat.finite stamp.timestamp = true
  float : (floatText stamp.timestamp).length ≤ 64
  utc : Fits 64 stamp.timestampUtc
  recordId : Fits 64 stamp.recordId

theorem hex_fits {s : PyStr} (h : validHexHash s = true) : Fits 64 s := by
  refine ⟨hex_utf8 h, ?_⟩
  simp only [validHexHash, Bool.and_eq_true, beq_iff_eq] at h
  exact h.1.le

theorem natText_small {n : Nat} (h : n < 2 ^ 64) : (natText n).length ≤ 20 :=
  (natText_length_le (by decide)).2 (h.trans (by decide))

theorem weightMembers_le {kvs : List (PyStr × Json F)} (h : ∀ kv ∈ kvs, kv.1.length ≤ 32) :
    weightMembers kvs ≤ 200 * kvs.length + (kvs.map (fun kv => kv.2.weight)).sum := by
  induction kvs with
  | nil => simp [weightMembers]
  | cons kv kvs ih =>
      obtain ⟨k, v⟩ := kv
      have hk := h (k, v) (List.mem_cons_self ..)
      have hkvs := ih fun x hx => h x (List.mem_cons_of_mem _ hx)
      simp only [weightMembers, List.length_cons, List.map_cons, List.sum_cons] at hk hkvs ⊢
      omega

theorem textOrNull_weight {o : Option PyStr} {n : Nat} (h : ∀ s ∈ o, s.length ≤ n) :
    (textOrNull o : Json F).weight ≤ 6 * n + 4 := by
  cases o with
  | none => simp [textOrNull, Json.weight]
  | some s =>
      have := h s rfl
      simp only [textOrNull, Json.weight]
      omega

theorem textOrNull_utf8 {o : Option PyStr} (h : ∀ s ∈ o, Utf8 s) :
    (textOrNull o : Json F).Utf8 := by
  cases o with
  | none => exact utf8_null
  | some s => exact (utf8_str s).2 (h s rfl)

/-- What the texts of a report look like in an ordinary environment. -/
structure Printable (report : IntegrityReport) : Prop where
  first : Fits 64 report.firstPrevHash
  last : Fits 64 report.lastHash
  records : report.recordCount < 2 ^ 64
  segments : report.segmentCount < 2 ^ 64
  error : ∀ e ∈ report.error, Fits 200 e.code
  segment : ∀ name ∈ report.errorSegment, Fits pathMax name
  line : ∀ n ∈ report.errorLine, n < 2 ^ 64
  artifact : ∀ name ∈ report.recoveryArtifact, Fits pathMax name
  counted : 0 ≤ report.lastSequence

theorem Printable.utf8 {report : IntegrityReport} (h : Printable report) :
    (Json.obj report.toDict : Json F).Utf8 := by
  have hkeys : ∀ k ∈ ["valid", "record_count", "segment_count", "coverage", "first_prev_hash",
      "last_hash", "last_sequence", "error", "error_segment", "error_line",
      "repaired_trailing_partial", "recovery_artifact"].map py, Utf8 k := by decide
  have hcoverage : Utf8 report.coverage.name := by
    cases report.coverage <;> decide
  have hline : ((report.errorLine.map (fun n => Json.int n)).getD .null : Json F).Utf8 := by
    cases report.errorLine <;> simp
  have herror : (textOrNull (report.error.map IntegrityError.code) : Json F).Utf8 :=
    textOrNull_utf8 fun s hs => by
      obtain ⟨e, he, rfl⟩ := Option.map_eq_some_iff.1 hs
      exact (h.error e he).text
  have hsegment : (textOrNull report.errorSegment : Json F).Utf8 :=
    textOrNull_utf8 fun s hs => (h.segment s hs).text
  have hartifact : (textOrNull report.recoveryArtifact : Json F).Utf8 :=
    textOrNull_utf8 fun s hs => (h.artifact s hs).text
  simp only [List.map_cons, List.map_nil, List.forall_mem_cons] at hkeys
  simp only [IntegrityReport.toDict, utf8_obj_cons, utf8_obj_nil, utf8_bool, utf8_int, utf8_str,
    hkeys, hcoverage, h.first.text, h.last.text, hline, herror, hsegment, hartifact, and_self]

theorem Printable.encodable_iff {report : IntegrityReport} (h : Printable report) (b : Bool) :
    (Json.obj report.toDict : Json F).encodable b = true ↔
      report.lastSequence < 10 ^ maxStrDigits := by
  have hnat : ∀ n : Nat, n < 2 ^ 64 → (Json.int n : Json F).encodable b = true := by
    intro n hn
    have hdigits := natText_small hn
    exact decide_eq_true (hdigits.trans (by decide))
  have htext : ∀ o : Option PyStr, (textOrNull o : Json F).encodable b = true := by
    intro o
    cases o <;> rfl
  have hline : ((report.errorLine.map (fun n => Json.int n)).getD .null : Json F).encodable b =
      true := by
    cases hl : report.errorLine with
    | none => rfl
    | some n => exact hnat n (h.line n hl)
  have hsequence : (Json.int report.lastSequence : Json F).encodable b = true ↔
      report.lastSequence < 10 ^ maxStrDigits := by
    have hcounted := h.counted
    simp only [Json.encodable, decide_eq_true_eq]
    rw [natText_length_le (by decide)]
    have habs : ((report.lastSequence.natAbs : Nat) : Int) = report.lastSequence :=
      Int.natAbs_of_nonneg hcounted
    rw [← habs]
    exact_mod_cast Iff.rfl
  simp only [Json.encodable, encodableMembers_iff] at hsequence ⊢
  simp only [IntegrityReport.toDict, List.forall_mem_cons, List.not_mem_nil, false_implies,
    implies_true, and_true, hnat _ h.records, hnat _ h.segments, htext, hline, true_and]
  simpa [Json.encodable] using hsequence

theorem Printable.weight {report : IntegrityReport} (h : Printable report)
    (hsequence : report.lastSequence < 10 ^ maxStrDigits) :
    (Json.obj report.toDict : Json F).weight ≤ 60000 := by
  have hkeys : ∀ kv ∈ (report.toDict : Mapping F), kv.1.length ≤ 32 := by
    have hall : ∀ k ∈ (report.toDict : Mapping F).map Prod.fst, k.length ≤ 32 := by
      show ∀ k ∈ ["valid", "record_count", "segment_count", "coverage", "first_prev_hash",
        "last_hash", "last_sequence", "error", "error_segment", "error_line",
        "repaired_trailing_partial", "recovery_artifact"].map py, k.length ≤ 32
      decide
    exact fun kv hkv => hall kv.1 (List.mem_map_of_mem hkv)
  have hnat : ∀ n : Nat, n < 2 ^ 64 → (Json.int n : Json F).weight ≤ 21 := by
    intro n hn
    have hdigits := natText_small hn
    simp only [Json.weight, Int.natAbs_natCast]
    omega
  have hseq : (Json.int report.lastSequence : Json F).weight ≤ 4301 := by
    have hdigits : (natText report.lastSequence.natAbs).length ≤ maxStrDigits := by
      have henc : (Json.int report.lastSequence : Json F).encodable true = true :=
        encodableMembers_iff.1 ((h.encodable_iff (F := F) true).2 hsequence)
          (py "last_sequence", .int report.lastSequence) (by simp [IntegrityReport.toDict])
      exact of_decide_eq_true henc
    simp only [Json.weight, maxStrDigits] at hdigits ⊢
    omega
  have hcoverage : (Json.str report.coverage.name : Json F).weight ≤ 104 := by
    have hname : report.coverage.name.length ≤ 17 := by
      cases report.coverage <;> decide
    simp only [Json.weight]
    omega
  have hhash : ∀ s, Fits 64 s → (Json.str s : Json F).weight ≤ 386 := by
    intro s hs
    have := hs.short
    simp only [Json.weight]
    omega
  have hline : ((report.errorLine.map (fun n => Json.int n)).getD .null : Json F).weight ≤ 21 := by
    cases hl : report.errorLine with
    | none => exact (by decide : 4 ≤ 21)
    | some n => exact hnat n (h.line n hl)
  have herror : (textOrNull (report.error.map IntegrityError.code) : Json F).weight ≤ 1204 :=
    textOrNull_weight fun s hs => by
      obtain ⟨e, he, rfl⟩ := Option.map_eq_some_iff.1 hs
      exact (h.error e he).short
  have hsegment : (textOrNull report.errorSegment : Json F).weight ≤ 6 * 4096 + 4 :=
    textOrNull_weight fun s hs => (h.segment s hs).short
  have hartifact : (textOrNull report.recoveryArtifact : Json F).weight ≤ 6 * 4096 + 4 :=
    textOrNull_weight fun s hs => (h.artifact s hs).short
  have hsum := weightMembers_le hkeys
  have hrecords := hnat _ h.records
  have hsegments := hnat _ h.segments
  have hfirst := hhash _ h.first
  have hlast := hhash _ h.last
  have hbool : ∀ b : Bool, (Json.bool b : Json F).weight = 5 := fun _ => rfl
  simp only [Json.weight] at hrecords hsegments hfirst hlast hseq hcoverage
  simp only [Json.weight]
  simp only [IntegrityReport.toDict, List.length_cons, List.length_nil, List.map_cons,
    List.map_nil, List.sum_cons, List.sum_nil, Json.weight] at hsum
  simp only [IntegrityReport.toDict]
  omega

/-! ## The first record -/

/-- `_safe_value` leaves a value without floats alone. -/
theorem safeValue_of_no_floats (v : Json F) (h : v.floats = []) : safeValue v = v := by
  induction v using Json.inductOn with
  | null => rfl
  | bool b => rfl
  | int n => rfl
  | float f => exact absurd h (by simp [Json.floats])
  | str s => rfl
  | arr xs ih =>
      simp only [Json.floats, floatsList_eq, List.flatMap_eq_nil_iff] at h
      simp only [safeValue, safeItems_eq]
      rw [List.map_congr_left fun x hx => ih x hx (h x hx), List.map_id']
  | obj kvs ih =>
      simp only [Json.floats, floatsMembers_eq, List.flatMap_eq_nil_iff] at h
      simp only [safeValue, safeMembers_eq]
      rw [List.map_congr_left (g := id) fun kv hkv => by rw [ih kv hkv (h kv hkv)]; rfl, List.map_id]

/-- A record that can be encoded and is not too long starts the chain of an empty log. -/
theorem record_starts {lg : Logger} {dir : Dir} {stamp : Stamp F} {input : RecordInput F}
    (hempty : segmentsFor lg.config.fileName dir = [])
    (hinput : validateRecordInput input = .ok ())
    (henc : (Json.obj (entryFields stamp zeroHash 0 input)).encodable false = true)
    (hutf : (Json.obj (entryFields stamp zeroHash 0 input)).Utf8)
    (hsize : ((4 * ((Json.obj (entryFields stamp zeroHash 0 input)).weight + 600) : Nat) : Int) ≤
      lg.config.maxRecordBytes) :
    ∃ plan, PlanFacts H { lg with lastHash := zeroHash, lastSequence := 0 } dir stamp input plan ∧
      record H lg dir (.ok stamp) input =
        (.ok plan.hash, { lg with lastHash := plan.hash, lastSequence := 1 },
          { dir with files := dir.files.set lg.config.fileName plan.line }) := by
  have hnone : dir.files.get? lg.config.fileName = none := by
    cases hget : dir.files.get? lg.config.fileName with
    | none => rfl
    | some data =>
        have hmem := mem_segmentsFor.2 ⟨hget, .inl rfl⟩
        rw [hempty] at hmem
        exact absurd hmem (by simp)
  have hprev : hexHashOf (lookup (py "prev_hash") (entryFields stamp zeroHash 0 input)) =
      some zeroHash := by
    have hl : lookup (py "prev_hash") (entryFields stamp zeroHash 0 input) = some (.str zeroHash) :=
      rfl
    rw [hl]
    simp [hexHashOf, zeroHash_hex]
  obtain ⟨hash, hhash⟩ := (recordHash_ok_iff (H := H) (encodable_mono _ henc) hprev).2
    ⟨hutf, fun _ => ((encodable_false_iff _).1 henc).2⟩
  have hhex := recordHash_hex hhash
  set fields := entryFields stamp zeroHash 0 input with hfields
  have hbuild : buildEntry H stamp zeroHash 0 input =
      .ok (fields ++ [(py "record_hash", .str hash)]) := by
    simp only [buildEntry, ← hfields, hhash]
  have hentryEnc : (Json.obj (fields ++ [(py "record_hash", Json.str hash)])).encodable false =
      true := by
    refine encodableMembers_iff.2 fun kv hkv => ?_
    rcases List.mem_append.1 hkv with hkv | hkv
    · exact encodableMembers_iff.1 henc kv hkv
    · rw [List.mem_singleton.1 hkv]
      rfl
  have hentryUtf : (Json.obj (fields ++ [(py "record_hash", Json.str hash)])).Utf8 := by
    simp only [Json.Utf8, Json.strings, stringsMembers_eq, List.flatMap_append, List.flatMap_cons,
      List.flatMap_nil, List.append_nil, List.forall_mem_append] at hutf ⊢
    refine ⟨hutf, ?_⟩
    simp only [List.forall_mem_cons]
    exact ⟨by decide, hex_utf8 hhex, List.forall_mem_nil _⟩
  obtain ⟨body, hbody⟩ := encodeUtf8_print Layout.compact _ 0 hentryUtf
  obtain ⟨line, hline⟩ : ∃ line, encodeUtf8
      ((Json.obj (fields ++ [(py "record_hash", Json.str hash)])).print .compact 0 ++ [10]) =
        some line := ⟨body ++ [10], encodeUtf8_append.2 ⟨body, [10], hbody, rfl, rfl⟩⟩
  have hencode : encodeLine (fields ++ [(py "record_hash", Json.str hash)]) = .ok line := by
    simp only [encodeLine, dumps, hentryEnc, if_true, encode, hline]
  have hweight : (Json.obj (fields ++ [(py "record_hash", Json.str hash)])).weight ≤
      (Json.obj fields).weight + 500 := by
    have happend : ∀ a b : Mapping F, weightMembers (a ++ b) = weightMembers a + weightMembers b := by
      intro a b
      induction a with
      | nil => simp [weightMembers]
      | cons kv a ih =>
          obtain ⟨k, v⟩ := kv
          simp only [List.cons_append, weightMembers, ih]
          omega
    have hkey : (py "record_hash").length = 11 := rfl
    have hlen := (hex_fits hhex).short
    simp only [Json.weight, happend, weightMembers, hkey]
    omega
  have hfits : (line.length : Int) ≤ lg.config.maxRecordBytes := by
    have hbytes := encodeUtf8_length_le hline
    have hchars := print_length_le
      (Json.obj (fields ++ [(py "record_hash", Json.str hash)])) 0
    simp only [List.length_append, List.length_singleton] at hbytes
    omega
  have htail : tailState F lg dir = .ok (zeroHash, 0) := by
    rw [tailState, hempty]
    rfl
  have hrefresh : refresh F lg dir input =
      .ok { lg with lastHash := zeroHash, lastSequence := 0 } := by
    simp only [refresh, hinput, htail]
  cases hplan : planAppend H { lg with lastHash := zeroHash, lastSequence := 0 } dir stamp input with
  | error x =>
      simp only [planAppend, hbuild, hencode, if_neg (not_lt.2 hfits)] at hplan
      exact absurd hplan (by simp)
  | ok plan =>
      have hfacts := planAppend_facts hplan
      refine ⟨plan, hfacts, ?_⟩
      have heffects : plan.effects =
          [.create lg.config.fileName, .append lg.config.fileName plan.line] := by
        have hquiet : needsRotation lg.config dir plan.line = false := by
          simp [needsRotation, hnone]
        rw [hfacts.effects]
        simp only [appendEffects, hquiet, Bool.false_eq_true, if_false, List.nil_append]
      simp only [record, prepare, hrefresh, hplan, heffects, applyAll_write, hnone]
      rfl

theorem toDict_floats (report : IntegrityReport) :
    (Json.obj report.toDict : Json F).floats = [] := by
  have htext : ∀ o : Option PyStr, (textOrNull o : Json F).floats = [] := by
    intro o
    cases o <;> rfl
  have hline : ((report.errorLine.map (fun n => Json.int n)).getD .null : Json F).floats = [] := by
    cases report.errorLine <;> rfl
  simp only [IntegrityReport.toDict, Json.floats, floatsMembers, htext, hline, List.nil_append]

/-- **The recovery record is within the limits.** -/
theorem recovery_fits {report : IntegrityReport} {chain : PyStr} {stamp : Stamp F}
    (hprint : Printable report) (hsequence : report.lastSequence < 10 ^ maxStrDigits)
    (hchain : Fits pathMax chain) (hstamp : stamp.Works) :
    (Json.obj (entryFields stamp zeroHash 0 (recoveryInput report chain))).encodable false = true ∧
      (Json.obj (entryFields stamp zeroHash 0 (recoveryInput report chain))).Utf8 ∧
      (Json.obj (entryFields stamp zeroHash 0 (recoveryInput report chain))).weight ≤ 100000 := by
  have hpayload : safeValue (.obj (recoveryInput (F := F) report chain).payload) =
      .obj (recoveryInput report chain).payload := by
    refine safeValue_of_no_floats _ ?_
    have hdict := toDict_floats (F := F) report
    simp only [recoveryInput, Json.floats, floatsMembers, List.append_nil] at hdict ⊢
    exact hdict
  have hint : (Json.int (0 + 1) : Json F).encodable false = true :=
    decide_eq_true (by decide +kernel : (natText 1).length ≤ maxStrDigits)
  have hnull : ∀ s, (Json.str s : Json F).encodable false = true := fun _ => rfl
  refine ⟨?_, ?_, ?_⟩
  · have hdict := (hprint.encodable_iff (F := F) false).2 hsequence
    have hfloat : (Json.float stamp.timestamp).encodable false = true := by
      simp [Json.encodable, hstamp.finite]
    have hinner : (Json.obj (recoveryInput (F := F) report chain).payload).encodable false =
        true := by
      refine encodableMembers_iff.2 ?_
      simp only [recoveryInput, List.forall_mem_cons, List.not_mem_nil, false_implies,
        implies_true, and_true]
      exact ⟨hdict, rfl, rfl⟩
    refine encodableMembers_iff.2 ?_
    simp only [entryFields, hpayload, List.forall_mem_cons, List.not_mem_nil, false_implies,
      implies_true, and_true, hnull, hfloat, hinner, true_and]
    exact hint
  · have hkeys : ∀ k ∈ ["schema_version", "record_id", "sequence", "timestamp", "timestamp_utc",
        "source", "subject", "payload", "prev_hash", "previous_integrity", "quarantined_to",
        "limitation"].map py, Utf8 k := by decide
    have hfixed : Utf8 schemaVersion ∧ Utf8 zeroHash ∧ Utf8 (py "audit") ∧
        Utf8 (py "corruption_recovery") ∧
        Utf8 (py ("A new chain was started. The prior corrupted chain is preserved " ++
          "for forensic review but is not trusted.")) := by decide
    simp only [List.map_cons, List.map_nil, List.forall_mem_cons] at hkeys
    rw [entryFields, hpayload]
    simp only [recoveryInput, utf8_obj_cons, utf8_obj_nil, utf8_int,
      utf8_float, utf8_str, hkeys, hfixed, hprint.utf8, hchain.text, hstamp.utc.text,
      hstamp.recordId.text, and_self]
  · have hdict := hprint.weight (F := F) hsequence
    have hpath := hchain.short
    have hfloat := hstamp.float
    have hutc := hstamp.utc.short
    have hid := hstamp.recordId.short
    have hone : (natText (Int.natAbs (0 + 1))).length = 1 := by decide +kernel
    have hlengths : (py "audit").length = 5 ∧ (py "corruption_recovery").length = 19 ∧
        schemaVersion.length = 3 ∧ zeroHash.length = 64 ∧
        (py ("A new chain was started. The prior corrupted chain is preserved " ++
          "for forensic review but is not trusted.")).length ≤ 200 := by decide
    obtain ⟨haudit, hsubject, hschema, hzero, hlimitation⟩ := hlengths
    have hkeys : ∀ kv ∈ entryFields stamp zeroHash 0 (recoveryInput report chain),
        kv.1.length ≤ 32 := by
      have hall : ∀ k ∈ (entryFields stamp zeroHash 0 (recoveryInput report chain)).map Prod.fst,
          k.length ≤ 32 := by
        show ∀ k ∈ ["schema_version", "record_id", "sequence", "timestamp", "timestamp_utc",
          "source", "subject", "payload", "prev_hash"].map py, k.length ≤ 32
        decide
      exact fun kv hkv => hall kv.1 (List.mem_map_of_mem hkv)
    have hkeys' : ∀ kv ∈ (recoveryInput (F := F) report chain).payload, kv.1.length ≤ 32 := by
      have hall : ∀ k ∈ (recoveryInput (F := F) report chain).payload.map Prod.fst,
          k.length ≤ 32 := by
        show ∀ k ∈ ["previous_integrity", "quarantined_to", "limitation"].map py, k.length ≤ 32
        decide
      exact fun kv hkv => hall kv.1 (List.mem_map_of_mem hkv)
    have houter := weightMembers_le hkeys
    have hinner := weightMembers_le hkeys'
    simp only [Json.weight] at hdict
    simp only [recoveryInput, List.length_cons, List.length_nil, List.map_cons, List.map_nil,
      List.sum_cons, List.sum_nil, Json.weight] at hinner
    rw [entryFields, hpayload] at houter ⊢
    simp only [recoveryInput, List.length_cons, List.length_nil, List.map_cons, List.map_nil,
      List.sum_cons, List.sum_nil, Json.weight, haudit, hsubject, hschema, hzero, hone] at houter
    simp only [pathMax] at hpath
    simp only [recoveryInput, Json.weight]
    omega

end Elyra.Audit
