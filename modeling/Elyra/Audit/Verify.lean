import Elyra.Audit.Record

set_option autoImplicit false
set_option linter.unusedSectionVars false

/-! # Verification of an audit log

`verify_audit_directory`: the scan of every line of every segment, with the reports it gives and the
exceptions it lets through (a record whose own encoding raises, an integer beyond the digit limit).
The scan is then split into what it reads and what it checks: `LogRecords segments records` says
that the segments hold exactly these records, `checkAll` is the chain check on the records alone,
and a log is valid when both succeed (`verify_valid_iff`). -/

namespace Elyra.Audit

open Elyra.Python

variable {F : Type}

/-! ## The scan -/

/-- The error of an `IntegrityReport`. -/
inductive IntegrityError where
  | trailingPartialRecord
  | invalidUtf8
  | invalidJson
  | recordNotObject
  | missingFields (names : List PyStr)
  | invalidHashEncoding
  | previousHashMismatch
  | recordHashMismatch
  | nonMonotonicSequence
  deriving DecidableEq, Repr

/-- The code each error text starts with. -/
def IntegrityError.code : IntegrityError → PyStr
  | .trailingPartialRecord => py "TRAILING_PARTIAL_RECORD"
  | .invalidUtf8 => py "INVALID_JSON"
  | .invalidJson => py "INVALID_JSON"
  | .recordNotObject => py "RECORD_NOT_OBJECT"
  | .missingFields names => py "MISSING_FIELDS:" ++ List.intercalate (py ",") names
  | .invalidHashEncoding => py "INVALID_HASH_ENCODING"
  | .previousHashMismatch => py "PREVIOUS_HASH_MISMATCH"
  | .recordHashMismatch => py "RECORD_HASH_MISMATCH"
  | .nonMonotonicSequence => py "NON_MONOTONIC_SEQUENCE"

/-- Why the scan stops: with a report, or with an exception that `verify_audit_directory` does not
    catch. -/
inductive Halt where
  | report (e : IntegrityError)
  | raised (x : PyExc)
  deriving DecidableEq, Repr

/-- The variables of the scan. -/
structure Scan where
  previousHash : Option PyStr := none
  firstPrevHash : PyStr := zeroHash
  lastHash : PyStr := zeroHash
  lastSequence : Int := 0
  recordCount : Nat := 0
  deriving DecidableEq, Repr

/-- `required`, in sorted order. -/
def requiredFields : List PyStr :=
  ["payload", "prev_hash", "record_hash", "source", "subject", "timestamp"].map py

/-- `sorted(required.difference(decoded))`. -/
def missingFields (entry : Mapping F) : List PyStr :=
  requiredFields.filter (fun k => (lookup k entry).isNone)

/-- The value of a sequence field when `isinstance(sequence, int)`; a `bool` is an `int`. -/
def sequenceNumber : Json F → Option Int
  | .int n => some n
  | .bool true => some 1
  | .bool false => some 0
  | _ => none

/-- The sequence number after a record, given the one before it. A record without one counts as the
    next. -/
def nextSequence (last : Int) : Option (Json F) → Option Int
  | none => some (last + 1)
  | some .null => some (last + 1)
  | some v =>
      match sequenceNumber v with
      | none => none
      | some n => if n ≤ last then none else some n

/-- The first record sets the hash the window starts from. -/
def Scan.start (s : Scan) (prev : PyStr) : Scan :=
  if s.previousHash = none then { s with firstPrevHash := prev, previousHash := some prev } else s

section Scan

variable [FloatNum F] (H : HexDigest)

/-- A line as a record; `none` is a blank line. -/
def decodeLine (line : Bytes) : Except Halt (Option (Mapping F)) :=
  if blank line then .ok none
  else
    match decodeUtf8 line with
    | none => .error (.report .invalidUtf8)
    | some text =>
        match loads (F := F) text with
        | .error .jsonDecodeError => .error (.report .invalidJson)
        | .error .valueError => .error (.raised .valueError)
        | .ok (.obj entry) => .ok (some entry)
        | .ok _ => .error (.report .recordNotObject)

/-- The checks on one record; a failed check keeps the scan as it was at that point. -/
def checkRecord (s : Scan) (entry : Mapping F) : Except (Scan × Halt) Scan :=
  if missingFields entry ≠ [] then .error (s, .report (.missingFields (missingFields entry)))
  else
    match hexHashOf (lookup (py "record_hash") entry), hexHashOf (lookup (py "prev_hash") entry) with
    | some stored, some prev =>
        let s := s.start prev
        if s.previousHash ≠ some prev then .error (s, .report .previousHashMismatch)
        else
          match recordHash H (remove (py "record_hash") entry) with
          | .error x => .error (s, .raised x)
          | .ok recomputed =>
              if recomputed ≠ stored then .error (s, .report .recordHashMismatch)
              else
                match nextSequence s.lastSequence (lookup (py "sequence") entry) with
                | none => .error (s, .report .nonMonotonicSequence)
                | some sequence =>
                    .ok { s with
                      previousHash := some stored
                      lastHash := stored
                      lastSequence := sequence
                      recordCount := s.recordCount + 1 }
    | _, _ => .error (s, .report .invalidHashEncoding)

def scanLine (s : Scan) (line : Bytes) : Except (Scan × Halt) Scan :=
  match decodeLine (F := F) line with
  | .error halt => .error (s, halt)
  | .ok none => .ok s
  | .ok (some entry) => checkRecord H s entry

/-- Where and why the scan stopped. -/
structure Failure where
  scan : Scan
  halt : Halt
  line : Nat
  segment : PyStr

/-- The lines of one segment, from line number `n` on. -/
def scanLines (segment : PyStr) : Nat → Scan → List Bytes → Except Failure Scan
  | _, s, [] => .ok s
  | n, s, line :: lines =>
      match scanLine (F := F) H s line with
      | .error (s, halt) => .error ⟨s, halt, n, segment⟩
      | .ok s => scanLines segment (n + 1) s lines

def scanSegment (s : Scan) (segment : PyStr × Bytes) : Except Failure Scan :=
  if segment.2 ≠ [] ∧ endsWithLf segment.2 = false then
    .error ⟨s, .report .trailingPartialRecord, segment.2.count lf + 1, segment.1⟩
  else scanLines (F := F) H segment.1 1 s (splitlines segment.2)

def scanSegments : Scan → List (PyStr × Bytes) → Except Failure Scan
  | s, [] => .ok s
  | s, segment :: segments =>
      match scanSegment (F := F) H s segment with
      | .error f => .error f
      | .ok s => scanSegments s segments

inductive Coverage where
  | unknown
  | fullFromGenesis
  | retainedWindow
  deriving DecidableEq, Repr

structure IntegrityReport where
  valid : Bool
  recordCount : Nat
  segmentCount : Nat
  coverage : Coverage
  firstPrevHash : PyStr
  lastHash : PyStr
  lastSequence : Int
  error : Option IntegrityError := none
  errorSegment : Option PyStr := none
  errorLine : Option Nat := none
  repairedTrailingPartial : Bool := false
  recoveryArtifact : Option PyStr := none
  deriving DecidableEq, Repr

/-- The report of a scan that reached the end. -/
def Scan.report (s : Scan) (segmentCount : Nat) (repaired : Bool) (artifact : Option PyStr) :
    IntegrityReport :=
  { valid := true
    recordCount := s.recordCount
    segmentCount := segmentCount
    coverage := if s.firstPrevHash = zeroHash then .fullFromGenesis else .retainedWindow
    firstPrevHash := s.firstPrevHash
    lastHash := s.lastHash
    lastSequence := s.lastSequence
    repairedTrailingPartial := repaired
    recoveryArtifact := artifact }

/-- `verify_audit_directory` on the segments in `_segments_for` order. -/
def verifySegments (segments : List (PyStr × Bytes)) (repaired : Bool) (artifact : Option PyStr) :
    Except PyExc IntegrityReport :=
  match scanSegments (F := F) H {} segments with
  | .ok s => .ok (s.report segments.length repaired artifact)
  | .error f =>
      match f.halt with
      | .raised x => .error x
      | .report e =>
          .ok {
            valid := false
            recordCount := f.scan.recordCount
            segmentCount := segments.length
            coverage := .unknown
            firstPrevHash := f.scan.firstPrevHash
            lastHash := f.scan.lastHash
            lastSequence := f.scan.lastSequence
            error := some e
            errorSegment := some f.segment
            errorLine := some f.line
            repairedTrailingPartial := repaired
            recoveryArtifact := artifact }

end Scan

/-! ## What a segment holds, and what is checked -/

section Records

variable [FloatNum F] {H : HexDigest}

/-- The records of a list of lines; `none` if a line is neither blank nor an object. -/
def decodeAll : List Bytes → Option (List (Mapping F))
  | [] => some []
  | line :: lines =>
      match decodeLine (F := F) line, decodeAll lines with
      | .ok none, some records => some records
      | .ok (some entry), some records => some (entry :: records)
      | _, _ => none

/-- The chain check on records alone. -/
def checkAll (H : HexDigest) : Scan → List (Mapping F) → Option Scan
  | s, [] => some s
  | s, entry :: records =>
      match checkRecord H s entry with
      | .ok s => checkAll H s records
      | .error _ => none

/-- Every segment is empty or ends with a line feed, and the segments hold these records. -/
structure LogRecords (segments : List (PyStr × Bytes)) (records : List (Mapping F)) : Prop where
  complete : ∀ segment ∈ segments, segment.2 = [] ∨ endsWithLf segment.2 = true
  decoded : decodeAll (segments.flatMap (fun segment => splitlines segment.2)) = some records

theorem decodeAll_append {a b : List Bytes} {records : List (Mapping F)} :
    decodeAll (a ++ b) = some records ↔
      ∃ r₁ r₂, decodeAll a = some r₁ ∧ decodeAll b = some r₂ ∧ records = r₁ ++ r₂ := by
  induction a generalizing records with
  | nil => simp [decodeAll, eq_comm]
  | cons line a ih =>
      simp only [List.cons_append, decodeAll]
      cases hline : decodeLine (F := F) line with
      | error halt => simp
      | ok entry =>
          cases hb : decodeAll (F := F) (a ++ b) with
          | none =>
              have hno : ∀ r₁ r₂ : List (Mapping F), decodeAll a = some r₁ → decodeAll b = some r₂ →
                  False := by
                intro r₁ r₂ h₁ h₂
                have hboth : decodeAll (a ++ b) = some (r₁ ++ r₂) := ih.2 ⟨r₁, r₂, h₁, h₂, rfl⟩
                rw [hb] at hboth
                exact absurd hboth (by simp)
              cases ha : decodeAll (F := F) a with
              | none => cases entry <;> simp
              | some r₁ =>
                  cases hb' : decodeAll (F := F) b with
                  | none => cases entry <;> simp
                  | some r₂ => exact absurd (hno r₁ r₂ ha hb') id
          | some rest =>
              obtain ⟨r₁, r₂, h₁, h₂, rfl⟩ := ih.1 hb
              cases entry <;> simp [h₁, h₂, eq_comm]

theorem checkAll_append {s s' : Scan} {a b : List (Mapping F)} :
    checkAll H s (a ++ b) = some s' ↔ ∃ t, checkAll H s a = some t ∧ checkAll H t b = some s' := by
  induction a generalizing s with
  | nil => simp [checkAll]
  | cons entry a ih =>
      simp only [List.cons_append, checkAll]
      cases checkRecord H s entry with
      | error e => simp
      | ok t => exact ih

/-- Scanning lines is decoding them and checking what they hold. -/
theorem scanLines_ok_iff {segment : PyStr} {n : Nat} {s s' : Scan} {lines : List Bytes} :
    scanLines (F := F) H segment n s lines = .ok s' ↔
      ∃ records : List (Mapping F), decodeAll lines = some records ∧
        checkAll H s records = some s' := by
  induction lines generalizing n s with
  | nil => simp [scanLines, decodeAll, checkAll]
  | cons line lines ih =>
      simp only [scanLines, scanLine, decodeAll]
      cases hline : decodeLine (F := F) line with
      | error halt => simp
      | ok entry =>
          cases entry with
          | none =>
              simp only [ih]
              cases decodeAll (F := F) lines <;> simp
          | some entry =>
              cases hcheck : checkRecord H s entry with
              | error e =>
                  cases decodeAll (F := F) lines <;> simp [checkAll, hcheck]
              | ok t =>
                  have hrest := ih (n := n + 1) (s := t)
                  cases hd : decodeAll (F := F) lines <;> simp_all [checkAll]

theorem scanSegment_ok_iff {s s' : Scan} {segment : PyStr × Bytes} :
    scanSegment (F := F) H s segment = .ok s' ↔
      (segment.2 = [] ∨ endsWithLf segment.2 = true) ∧
      ∃ records : List (Mapping F), decodeAll (splitlines segment.2) = some records ∧
        checkAll H s records = some s' := by
  unfold scanSegment
  split
  · next h =>
    have hno : ¬ (segment.2 = [] ∨ endsWithLf segment.2 = true) := by
      rintro (h' | h')
      · exact h.1 h'
      · rw [h'] at h
        exact absurd h.2 (by simp)
    simp [hno]
  · next h =>
    have hyes : segment.2 = [] ∨ endsWithLf segment.2 = true := by
      by_cases he : segment.2 = []
      · exact .inl he
      · exact .inr (by simpa using fun hf => h ⟨he, hf⟩)
    simp only [scanLines_ok_iff, hyes, true_and]

theorem scanSegments_ok_iff {s s' : Scan} {segments : List (PyStr × Bytes)} :
    scanSegments (F := F) H s segments = .ok s' ↔
      ∃ records : List (Mapping F), LogRecords segments records ∧
        checkAll H s records = some s' := by
  induction segments generalizing s with
  | nil =>
      simp only [scanSegments, Except.ok.injEq]
      constructor
      · rintro rfl
        exact ⟨[], ⟨by simp, rfl⟩, rfl⟩
      · rintro ⟨records, ⟨-, h⟩, hcheck⟩
        simp only [List.flatMap_nil, decodeAll, Option.some.injEq] at h
        subst h
        simpa [checkAll] using hcheck
  | cons segment segments ih =>
      have hstep : scanSegments (F := F) H s (segment :: segments) = .ok s' ↔
          ∃ t, scanSegment (F := F) H s segment = .ok t ∧
            scanSegments (F := F) H t segments = .ok s' := by
        simp only [scanSegments]
        cases scanSegment (F := F) H s segment <;> simp
      simp only [hstep, scanSegment_ok_iff, ih]
      constructor
      · rintro ⟨t, ⟨hc, r₁, h₁, hr₁⟩, r₂, ⟨hc₂, h₂⟩, hr₂⟩
        refine ⟨r₁ ++ r₂, ⟨?_, ?_⟩, checkAll_append.2 ⟨t, hr₁, hr₂⟩⟩
        · intro x hx
          rcases List.mem_cons.1 hx with rfl | hx
          · exact hc
          · exact hc₂ x hx
        · exact decodeAll_append.2 ⟨r₁, r₂, h₁, h₂, rfl⟩
      · rintro ⟨records, ⟨hc, h⟩, hr⟩
        obtain ⟨r₁, r₂, h₁, h₂, rfl⟩ := decodeAll_append.1 h
        obtain ⟨t, hr₁, hr₂⟩ := checkAll_append.1 hr
        exact ⟨t, ⟨hc _ (List.mem_cons_self ..), r₁, h₁, hr₁⟩, r₂,
          ⟨fun x hx => hc x (List.mem_cons_of_mem _ hx), h₂⟩, hr₂⟩

/-- **A log is valid when its segments hold records whose chain checks.** -/
theorem verify_valid_iff {segments : List (PyStr × Bytes)} {repaired : Bool}
    {artifact : Option PyStr} {r : IntegrityReport} :
    (verifySegments (F := F) H segments repaired artifact = .ok r ∧ r.valid = true) ↔
      ∃ (records : List (Mapping F)) (s : Scan), LogRecords segments records ∧
        checkAll H {} records = some s ∧ r = s.report segments.length repaired artifact := by
  have hscan : ∀ s', scanSegments (F := F) H {} segments = .ok s' ↔
      ∃ records : List (Mapping F), LogRecords segments records ∧ checkAll H {} records = some s' :=
    fun s' => scanSegments_ok_iff
  unfold verifySegments
  cases hres : scanSegments (F := F) H {} segments with
  | ok s =>
      obtain ⟨records, hlog, hcheck⟩ := (hscan s).1 hres
      constructor
      · rintro ⟨h, -⟩
        simp only [Except.ok.injEq] at h
        exact ⟨records, s, hlog, hcheck, h.symm⟩
      · rintro ⟨records', s', hlog', hcheck', rfl⟩
        have hsame := (hscan s').2 ⟨records', hlog', hcheck'⟩
        rw [hres, Except.ok.injEq] at hsame
        rw [hsame]
        exact ⟨rfl, rfl⟩
  | error f =>
      constructor
      · rintro ⟨h, hvalid⟩
        simp only at h
        split at h
        · exact absurd h (by simp)
        · simp only [Except.ok.injEq] at h
          rw [← h] at hvalid
          exact absurd hvalid (by simp)
      · rintro ⟨records, s, hlog, hcheck, -⟩
        have hok := (hscan s).2 ⟨records, hlog, hcheck⟩
        rw [hres] at hok
        exact absurd hok (by simp)

/-! ## The chain check -/

/-- The first record links to itself, a later one to the record before it. -/
theorem Scan.start_link_iff {s : Scan} {prev : PyStr} :
    (s.start prev).previousHash = some prev ↔
      s.previousHash = none ∨ s.previousHash = some prev := by
  unfold Scan.start
  cases hp : s.previousHash <;> simp [hp]

theorem Scan.start_fields (s : Scan) (prev : PyStr) :
    (s.start prev).lastSequence = s.lastSequence ∧ (s.start prev).recordCount = s.recordCount ∧
      (s.start prev).firstPrevHash =
        if s.previousHash = none then prev else s.firstPrevHash := by
  unfold Scan.start
  split <;> simp

/-- Everything one successful check establishes. -/
theorem checkRecord_ok_iff {s s' : Scan} {entry : Mapping F} :
    checkRecord H s entry = .ok s' ↔ ∃ stored prev sequence,
      missingFields entry = [] ∧
      hexHashOf (lookup (py "record_hash") entry) = some stored ∧
      hexHashOf (lookup (py "prev_hash") entry) = some prev ∧
      (s.previousHash = none ∨ s.previousHash = some prev) ∧
      recordHash H (remove (py "record_hash") entry) = .ok stored ∧
      nextSequence s.lastSequence (lookup (py "sequence") entry) = some sequence ∧
      s' = { previousHash := some stored
             firstPrevHash := if s.previousHash = none then prev else s.firstPrevHash
             lastHash := stored
             lastSequence := sequence
             recordCount := s.recordCount + 1 } := by
  constructor
  · intro h
    unfold checkRecord at h
    split at h
    · exact absurd h (by simp)
    next hmissing =>
    split at h
    · next stored prev hstored hprev =>
      dsimp only at h
      split at h
      · exact absurd h (by simp)
      next hlink =>
      split at h
      · exact absurd h (by simp)
      next recomputed hhash =>
      split at h
      · exact absurd h (by simp)
      next hsame =>
      split at h
      · exact absurd h (by simp)
      next sequence hseq =>
      simp only [Except.ok.injEq] at h
      rw [not_not] at hmissing hlink hsame
      obtain ⟨hsequence, hcount, hfirst⟩ := s.start_fields prev
      rw [hsequence] at hseq
      rw [hcount, hfirst] at h
      subst hsame
      exact ⟨recomputed, prev, sequence, hmissing, hstored, hprev, Scan.start_link_iff.1 hlink,
        hhash, hseq, h.symm⟩
    · exact absurd h (by simp)
  · rintro ⟨stored, prev, sequence, hmissing, hstored, hprev, hlink, hhash, hseq, rfl⟩
    simp only [checkRecord, hmissing, hstored, hprev, Scan.start_link_iff.2 hlink, hhash,
      s.start_fields, hseq, ne_eq, not_true_eq_false, if_false]

theorem nextSequence_mono {m n m' : Int} {v : Option (Json F)} (hle : n ≤ m)
    (h : nextSequence m v = some m') : ∃ n', nextSequence n v = some n' ∧ n' ≤ m' := by
  unfold nextSequence at h ⊢
  split at h
  · exact ⟨n + 1, rfl, by simp only [Option.some.injEq] at h; omega⟩
  · exact ⟨n + 1, rfl, by simp only [Option.some.injEq] at h; omega⟩
  · next v _ =>
    split at h
    · exact absurd h (by simp)
    · next k hk =>
      split at h
      · exact absurd h (by simp)
      · next hlt =>
        simp only [Option.some.injEq] at h
        exact ⟨k, if_neg (by omega), h.le⟩

/-- A scan that knows less than `s`: it has seen no record yet or the same last one, and its count
    is not ahead. -/
structure Behind (s t : Scan) : Prop where
  link : t.previousHash = none ∨ t.previousHash = s.previousHash
  count : t.lastSequence ≤ s.lastSequence

/-- What `s` accepts, a scan behind it accepts too: the retained end of a log is valid. -/
theorem Behind.checkAll {s s' t : Scan} {records : List (Mapping F)} (hb : Behind s t)
    (h : checkAll H s records = some s') :
    ∃ t', Elyra.Audit.checkAll H t records = some t' ∧ Behind s' t' ∧
      (records ≠ [] → t'.lastHash = s'.lastHash ∧ t'.previousHash = s'.previousHash) := by
  induction records generalizing s t with
  | nil =>
      simp only [Elyra.Audit.checkAll, Option.some.injEq] at h
      subst h
      exact ⟨t, rfl, hb, fun hne => absurd rfl hne⟩
  | cons entry records ih =>
      simp only [Elyra.Audit.checkAll] at h ⊢
      split at h
      · next s₁ hs₁ =>
        obtain ⟨stored, prev, sequence, hmissing, hstored, hprev, hlink, hhash, hseq, rfl⟩ :=
          checkRecord_ok_iff.1 hs₁
        obtain ⟨sequence', hseq', hle⟩ := nextSequence_mono hb.count hseq
        have hlink' : t.previousHash = none ∨ t.previousHash = some prev := by
          rcases hb.link with h' | h'
          · exact .inl h'
          · rw [h']
            exact hlink
        obtain ⟨t₁, ht₁, hprev₁, hlast₁, hseq₁⟩ : ∃ t₁, checkRecord H t entry = .ok t₁ ∧
            t₁.previousHash = some stored ∧ t₁.lastHash = stored ∧ t₁.lastSequence = sequence' :=
          ⟨_, checkRecord_ok_iff.2
            ⟨stored, prev, sequence', hmissing, hstored, hprev, hlink', hhash, hseq', rfl⟩,
            rfl, rfl, rfl⟩
        rw [ht₁]
        obtain ⟨t', ht', hb', hlast⟩ := ih (t := t₁) ⟨.inr hprev₁, by rw [hseq₁]; exact hle⟩ h
        refine ⟨t', ht', hb', fun _ => ?_⟩
        cases records with
        | nil =>
            simp only [Elyra.Audit.checkAll, Option.some.injEq] at h ht'
            rw [← h, ← ht']
            exact ⟨hlast₁, hprev₁⟩
        | cons entry' records => exact hlast (by simp)
      · exact absurd h (by simp)

/-- After a record, the scan links to it. -/
theorem checkAll_link {s s' : Scan} {records : List (Mapping F)}
    (h : checkAll H s records = some s')
    (hs : s.previousHash = none ∨ s.previousHash = some s.lastHash) :
    s'.previousHash = none ∨ s'.previousHash = some s'.lastHash := by
  induction records generalizing s with
  | nil =>
      simp only [checkAll, Option.some.injEq] at h
      exact h ▸ hs
  | cons entry records ih =>
      simp only [checkAll] at h
      split at h
      · next s₁ hs₁ =>
        obtain ⟨stored, prev, sequence, -, -, -, -, -, -, rfl⟩ := checkRecord_ok_iff.1 hs₁
        exact ih h (.inr rfl)
      · exact absurd h (by simp)

/-- The last record of a checked list is the one the scan ends at. -/
theorem checkAll_last {s s' : Scan} {records : List (Mapping F)} {entry : Mapping F}
    (h : checkAll H s (records ++ [entry]) = some s') :
    hexHashOf (lookup (py "record_hash") entry) = some s'.lastHash ∧
      s'.previousHash = some s'.lastHash ∧
      ∃ t, checkAll H s records = some t ∧
        nextSequence t.lastSequence (lookup (py "sequence") entry) = some s'.lastSequence := by
  obtain ⟨t, ht, hlast⟩ := checkAll_append.1 h
  simp only [checkAll] at hlast
  split at hlast
  · next s₁ hs₁ =>
    obtain ⟨stored, prev, sequence, -, hstored, -, -, -, hseq, rfl⟩ := checkRecord_ok_iff.1 hs₁
    simp only [Option.some.injEq] at hlast
    subst hlast
    exact ⟨hstored, rfl, t, ht, hseq⟩
  · exact absurd hlast (by simp)

/-- A built record passes the check of a scan that links to it. -/
theorem Built.check {lastHash hash : PyStr} {lastSequence : Int} {entry : Mapping F}
    (hb : Built H lastHash lastSequence hash entry) (hhash : validHexHash hash = true)
    (hprev : validHexHash lastHash = true) {s : Scan}
    (hlink : s.previousHash = none ∨ s.previousHash = some lastHash)
    (hseq : s.lastSequence ≤ lastSequence) :
    checkAll H s [entry] = some {
      previousHash := some hash
      firstPrevHash := if s.previousHash = none then lastHash else s.firstPrevHash
      lastHash := hash
      lastSequence := lastSequence + 1
      recordCount := s.recordCount + 1 } := by
  have hmissing : missingFields entry = [] := by
    rw [missingFields, List.filter_eq_nil_iff]
    intro k hk
    have hsome : (lookup k entry).isSome = true := by
      simp only [requiredFields, List.map_cons, List.map_nil, List.mem_cons, List.not_mem_nil,
        or_false] at hk
      rcases hk with rfl | rfl | rfl | rfl | rfl | rfl <;> exact hb.required _ (by simp)
    cases hl : lookup k entry with
    | none => rw [hl] at hsome; exact absurd hsome (by simp)
    | some v => simp
  have hcheck : checkRecord H s entry = .ok _ := checkRecord_ok_iff.2
    ⟨hash, lastHash, lastSequence + 1, hmissing, by simp [hb.hash_eq, hexHashOf, hhash],
      by simp [hb.prev_eq, hexHashOf, hprev], hlink, hb.rehash,
      by simp only [hb.sequence_eq, nextSequence, sequenceNumber]; rw [if_neg (by omega)], rfl⟩
  simp only [checkAll, hcheck]

/-- The line of a well-formed record decodes to the record. -/
theorem decodeLine_encodeLine {entry : Mapping F} (hwf : (Json.obj entry).WF) {line : Bytes}
    (h : encodeLine entry = .ok line) :
    ∃ body, line = body ++ [lf] ∧ (∀ b ∈ body, b ≠ lf ∧ b ≠ cr) ∧ blank body = false ∧
      decodeLine body = .ok (some entry) := by
  obtain ⟨text, body, htext, hbody, rfl, hends, hhead⟩ := encodeLine_eq h
  have hblank : blank body = false := by
    cases body with
    | nil => exact absurd hhead (by simp)
    | cons b body =>
        simp only [List.head?_cons, Option.some.injEq] at hhead
        subst hhead
        simp [blank, isSpaceByte]
  refine ⟨body, rfl, hends, hblank, ?_⟩
  simp [decodeLine, hblank, decodeUtf8_encodeUtf8 hbody, loads_dumps hwf htext]

end Records

end Elyra.Audit
