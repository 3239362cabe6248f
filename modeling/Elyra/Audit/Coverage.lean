import Elyra.Audit.Tamper
import Elyra.Audit.Window

set_option autoImplicit false
set_option linter.unusedSectionVars false

/-! # What the coverage of a report says

A report says `FULL_FROM_GENESIS` when the first retained record points to the zero hash. That is
the truth in every run whose rotations leave a segment behind (`coverage_truthful`): the retained
records are the end of the history, so one that points to the zero hash is the first of all. A
rotation with `backup_count` 0 removes the segment it has just made; the next record finds no tail,
starts a second chain from the zero hash and the number 1, and the log looks complete
(`coverage_hides_dropped_record`). Unlike the results on the chain, these put no bound on
`max_record_bytes`: a record that hides the tail stops the log, and harms no claim about it. -/

namespace Elyra.Audit

open Elyra.Python

variable {F : Type} [FloatNum F] {H : HexDigest}

/-! ## Runs that retain a segment -/

/-- A call on this log; if it rotates, a segment is left and six digits are enough for its number. -/
def System.Retains (H : HexDigest) (fileName : PyStr) (sys : System F) : Call F → Prop
  | .reopen c _ => c.fileName = fileName
  | .record i stamp input => ∀ lg, sys.loggers[i]? = some lg →
      newRotations H lg sys.dir stamp input ≠ 0 →
      1 ≤ lg.config.backupCount ∧ nextRotationIndex fileName sys.dir ≤ 999999
  | .rotate i => ∀ lg, sys.loggers[i]? = some lg → (rotate lg sys.dir).1.isSome = true →
      1 ≤ lg.config.backupCount ∧ nextRotationIndex fileName sys.dir ≤ 999999

/-- Every call of the run. -/
def Retaining (H : HexDigest) (fileName : PyStr) : System F → List (Call F) → Prop
  | _, [] => True
  | sys, call :: calls => sys.Retains H fileName call ∧ Retaining H fileName (sys.step H call) calls

/-- The segments hold the end of the history, and the history is chained. -/
structure EndKept (H : HexDigest) (fileName : PyStr) (sys : System F) : Prop where
  names : ∀ lg ∈ sys.loggers, lg.config.fileName = fileName
  recorded : ∀ data ∈ contents fileName sys.dir, Recorded F H data
  chained : Chained zeroHash 0 sys.history
  log : ∃ gone kept s, sys.history = gone ++ kept ∧ (sys.history ≠ [] → kept ≠ []) ∧
    ValidLog H fileName sys.dir kept s ∧ Newest sys.history s.lastHash s.lastSequence

theorem endKept_start (H : HexDigest) (fileName : PyStr) :
    EndKept H fileName ({} : System F) where
  names := by simp
  recorded := fun data hdata => absurd hdata (by rw [contents_start]; exact List.not_mem_nil)
  chained := .nil ..
  log := ⟨[], [], {}, rfl, fun h => absurd rfl h, ⟨by rw [contents_start]; exact holds_nil, rfl⟩,
    ⟨fun _ => ⟨rfl, rfl⟩, by simp⟩⟩

/-- A segment of records that is not empty holds one. -/
theorem Recorded.nonempty {data : Bytes} (h : Recorded F H data) (hdata : data ≠ [])
    {records : List (Mapping F)} (hholds : Holds [data] records) : records ≠ [] := by
  cases h with
  | empty => exact absurd rfl hdata
  | append hlast hline =>
      obtain ⟨prev, hash, n, entry, hbuilt, -, hencode⟩ := hline
      obtain ⟨r, hr, -⟩ := hlast.holds
      rw [hholds.unique (holds_line hbuilt.wf hencode hr)]
      simp

section Step

variable {fileName : PyStr} {sys : System F}

theorem EndKept.reopen (h : EndKept H fileName sys) {c : Config} (env : OpenEnv F)
    (hc : c.fileName = fileName) : EndKept H fileName (sys.step H (.reopen c env)) := by
  subst hc
  obtain ⟨gone, kept, s, hhistory, hne, hvalid, hnewest⟩ := h.log
  cases hc : c.valid with
  | false =>
      have hopen : openLogger H c env sys.dir = (.error (.python .valueError), sys.dir) := by
        unfold openLogger
        rw [if_pos hc]
      simp only [System.step, hopen]
      exact h
  | true =>
      simp only [System.step, openLogger_valid hvalid hc]
      refine ⟨fun lg hlg => ?_, h.recorded, h.chained, h.log⟩
      rcases List.mem_append.1 hlg with hlg | hlg
      · exact h.names lg hlg
      · rw [List.mem_singleton] at hlg
        rw [hlg]

/-- The tail is the end of the history, or it cannot be read. -/
theorem EndKept.tail (h : EndKept H fileName sys) {lg : Logger} (hlg : lg ∈ sys.loggers)
    {kept : List (Mapping F)} {s : Scan} (hvalid : ValidLog H fileName sys.dir kept s)
    {hash : PyStr} {n : Int} (htail : tailState F lg sys.dir = .ok (hash, n)) :
    tailState F lg sys.dir = .ok (s.lastHash, s.lastSequence) := by
  have hname := h.names lg hlg
  subst hname
  by_cases hfits : NewestFits lg.config.fileName sys.dir
  · exact tailState_fits hvalid h.recorded hfits
  · obtain ⟨x, hx⟩ := tailState_long h.recorded hfits
    rw [hx] at htail
    exact absurd htail (by simp)

theorem EndKept.record (h : EndKept H fileName sys) (i : Nat) (stamp : Except PyExc (Stamp F))
    (input : RecordInput F) (hretains : sys.Retains H fileName (.record i stamp input)) :
    EndKept H fileName (sys.step H (.record i stamp input)) := by
  cases hi : sys.loggers[i]? with
  | none =>
      simp only [System.step, hi]
      exact h
  | some lg =>
      have hlg : lg ∈ sys.loggers := List.mem_of_getElem? hi
      have hretains := hretains lg hi
      obtain ⟨gone, kept, s, hhistory, hne, hvalid, hnewest⟩ := h.log
      have hconfig : (prepare H lg sys.dir stamp input).1.config = lg.config := prepare_config
      have hnames : ∀ lg' : Logger, lg'.config = lg.config → ∀ x ∈ sys.loggers.set i lg',
          x.config.fileName = fileName := by
        intro lg' hconfig x hx
        rcases List.mem_or_eq_of_mem_set hx with hx | rfl
        · exact h.names x hx
        · rw [hconfig]
          exact h.names lg hlg
      simp only [System.step, hi, newRecords, newRotations, Elyra.Audit.record] at hretains ⊢
      cases hprepare : prepare H lg sys.dir stamp input with
      | mk lg' result =>
          rw [hprepare] at hconfig
          cases result with
          | error x =>
              simp only [List.append_nil, Nat.add_zero]
              exact ⟨hnames lg' hconfig, h.recorded, h.chained, h.log⟩
          | ok plan =>
              simp only [hprepare] at hretains ⊢
              have hname := h.names lg hlg
              subst hname
              have hindex : needsRotation lg.config sys.dir plan.line = true →
                  nextRotationIndex lg.config.fileName sys.dir ≤ 999999 := by
                intro hneeds
                exact (hretains (by simp [hneeds])).2
              obtain ⟨_, _, _, hread, -, rfl, hplan⟩ := prepare_ok hprepare
              obtain ⟨lost, kept', t, rfl, hvalid', hchained, hnewest', hstate⟩ :=
                record_extends hvalid h.chained hnewest (h.tail hlg hvalid hread) hprepare hindex
              refine ⟨hnames _ hconfig, ?_, hchained, gone ++ lost, kept' ++ [plan.entry], t,
                by simp [hhistory], by simp, hvalid', hnewest'⟩
              refine hstate.forall h.recorded .empty fun last hlast => ?_
              exact hlast.append ⟨_, _, _, _, hplan.built, hplan.hex, hplan.encoded⟩

theorem EndKept.rotate (h : EndKept H fileName sys) (i : Nat)
    (hretains : sys.Retains H fileName (.rotate i)) :
    EndKept H fileName (sys.step H (.rotate i)) := by
  cases hi : sys.loggers[i]? with
  | none =>
      simp only [System.step, hi]
      exact h
  | some lg =>
      have hname := h.names lg (List.mem_of_getElem? hi)
      subst hname
      have hretains := hretains lg hi
      simp only [System.step, hi]
      rcases rotate_cases lg sys.dir with hidle | ⟨data, name, hactive, hdata, hdone⟩
      · simp only [hidle]
        exact h
      · simp only [hdone, Option.isSome_some, if_true, forall_const] at hretains ⊢
        obtain ⟨gone, kept, s, hhistory, hne, hvalid, hnewest⟩ := h.log
        have hrecorded := h.recorded data (by rw [active_last hactive]; simp)
        rw [hhistory] at hnewest
        obtain ⟨j, lost, kept', t, rfl, hlast, hcontents, -, hvalid', hnewest'⟩ :=
          rotate_keeps hactive hdata (fun _ => hrecorded.nonempty hdata) hretains.1 hretains.2
            hvalid hnewest
        refine ⟨h.names, ?_, h.chained, gone ++ lost, kept', t, by simp [hhistory],
          fun _ => hlast, hvalid', by rw [hhistory]; exact hnewest'⟩
        rw [hcontents]
        exact fun x hx => h.recorded x (List.mem_of_mem_drop hx)

theorem EndKept.step (h : EndKept H fileName sys) (call : Call F)
    (hretains : sys.Retains H fileName call) : EndKept H fileName (sys.step H call) := by
  cases call with
  | reopen c env => exact h.reopen env hretains
  | record i stamp input => exact h.record i stamp input hretains
  | rotate i => exact h.rotate i hretains

theorem EndKept.run (h : EndKept H fileName sys) (calls : List (Call F))
    (hcalls : Retaining H fileName sys calls) : EndKept H fileName (sys.run H calls) := by
  induction calls generalizing sys with
  | nil => exact h
  | cons call calls ih => exact ih (h.step call hcalls.1) hcalls.2

end Step

/-! ## The first retained record -/

/-- The hash the window starts from is the one the first record points to. -/
theorem checkAll_first {entry : Mapping F} {records : List (Mapping F)} {s : Scan}
    (h : checkAll H {} (entry :: records) = some s) :
    hexHashOf (lookup (py "prev_hash") entry) = some s.firstPrevHash := by
  have hkeep : ∀ (records : List (Mapping F)) (a b : Scan), a.previousHash ≠ none →
      checkAll H a records = some b → b.firstPrevHash = a.firstPrevHash := by
    intro records
    induction records with
    | nil =>
        intro a b _ hab
        simp only [checkAll, Option.some.injEq] at hab
        rw [hab]
    | cons entry records ih =>
        intro a b ha hab
        simp only [checkAll] at hab
        split at hab
        · next a' ha' =>
          obtain ⟨stored, prev, sequence, -, -, -, -, -, -, rfl⟩ := checkRecord_ok_iff.1 ha'
          rw [ih _ b (by simp) hab]
          simp [ha]
        · exact absurd hab (by simp)
  simp only [checkAll] at h
  split at h
  · next s₁ hs₁ =>
    obtain ⟨stored, prev, sequence, -, -, hprev, -, -, -, rfl⟩ := checkRecord_ok_iff.1 hs₁
    rw [hprev, hkeep records _ s (by simp) h]
    simp
  · exact absurd h (by simp)

/-- In a chained history, what a record points to is the hash of the one before it. -/
theorem Chained.link {prev : PyStr} {n : Int} {gone rest : List (Mapping F)} {last next : Mapping F}
    (h : Chained prev n (gone ++ last :: next :: rest)) :
    ∃ hash, lookup (py "record_hash") last = some (.str hash) ∧
      lookup (py "prev_hash") next = some (.str hash) := by
  induction gone generalizing prev n with
  | nil =>
      cases h with
      | cons _ _ hhash hrest =>
          cases hrest with
          | cons hprev _ _ _ => exact ⟨_, hhash, hprev⟩
  | cons e gone ih =>
      cases h with
      | cons _ _ _ hrest => exact ih hrest

/-- **Coverage is truthful in every run whose rotations leave a segment**, short of a record whose
    digest is the zero hash: a valid report of records with coverage `FULL_FROM_GENESIS` means that
    the retained records are the whole history, in order and with its sequence numbers. -/
theorem coverage_truthful (H : HexDigest) (fileName : PyStr) (calls : List (Call F))
    (hcalls : Retaining H fileName {} calls) {sys : System F} (hrun : System.run H {} calls = sys)
    (hzero : ∀ entry ∈ sys.history, lookup (py "record_hash") entry ≠ some (.str zeroHash))
    {repaired : Bool} {artifact : Option PyStr} {r : IntegrityReport}
    (hverify : verify F H fileName sys.dir repaired artifact = .ok r) (hvalid : r.valid = true)
    (hfull : r.coverage = .fullFromGenesis) (hcount : 0 < r.recordCount) :
    LogRecords (segmentsFor fileName sys.dir) sys.history ∧ Chained zeroHash 0 sys.history := by
  subst hrun
  have h := (endKept_start H fileName).run calls hcalls
  obtain ⟨gone, kept, s, hhistory, -, hlog, -⟩ := h.log
  refine ⟨?_, h.chained⟩
  obtain ⟨s', hcheck, -, hlength, hfirst⟩ :=
    verify_records hverify hvalid (logRecords_iff.2 hlog.holds)
  obtain ⟨first, rest, rfl⟩ : ∃ first rest, kept = first :: rest := by
    cases kept with
    | nil =>
        simp only [List.length_nil] at hlength
        omega
    | cons first rest => exact ⟨first, rest, rfl⟩
  have hgone : gone = [] := by
    rcases List.eq_nil_or_concat gone with hnil | ⟨init, last, hconcat⟩
    · exact hnil
    · exfalso
      rw [List.concat_eq_append] at hconcat
      subst hconcat
      have hchained := h.chained
      rw [hhistory, List.append_assoc, List.singleton_append] at hchained
      obtain ⟨hash, hlast, hnext⟩ := hchained.link
      have hprev := checkAll_first hcheck
      rw [hfirst hfull, hnext] at hprev
      have hhash := hexHashOf_eq hprev
      simp only [Option.some.injEq, Json.str.injEq] at hhash
      refine hzero last (by simp [hhistory]) ?_
      rw [hlast, hhash]
  rw [hhistory, hgone, List.nil_append]
  exact logRecords_iff.2 hlog.holds

/-- Instances that keep a segment and have rotation numbers left make such runs. -/
theorem retaining_of_admissible {fileName : PyStr} {sys : System F} (h : Intact H fileName sys)
    (calls : List (Call F)) (hcalls : ∀ call ∈ calls, call.Admissible fileName)
    (hrot : (sys.run H calls).rotations ≤ 999999) : Retaining H fileName sys calls := by
  induction calls generalizing sys with
  | nil => trivial
  | cons call calls ih =>
      obtain ⟨hcall, hrest⟩ := List.forall_mem_cons.1 hcalls
      have hstep : (sys.step H call).rotations ≤ 999999 :=
        (rotations_mono H (sys.step H call) calls).trans hrot
      refine ⟨?_, ih (h.step call hcall hstep) hrest hrot⟩
      have hnumbers := h.numbers
      cases call with
      | reopen c env => exact hcall.1
      | record i stamp input =>
          intro lg hi hrotates
          obtain ⟨-, hbackup, -⟩ := h.configs lg (List.mem_of_getElem? hi)
          simp only [System.step, hi] at hstep
          exact ⟨hbackup, by omega⟩
      | rotate i =>
          intro lg hi hrotates
          obtain ⟨-, hbackup, -⟩ := h.configs lg (List.mem_of_getElem? hi)
          simp only [System.step, hi, hrotates, if_true] at hstep
          exact ⟨hbackup, by omega⟩

/-! Two instances that keep one segment, and one that keeps none. -/

theorem coverage_of_two_instances :
    (System.run sha256Digest {} sampleCalls).history.length = 2 ∧
    LogRecords (segmentsFor (py "audit.jsonl") (System.run sha256Digest {} sampleCalls).dir)
      (System.run sha256Digest {} sampleCalls).history := by
  have hcalls : ∀ call ∈ sampleCalls, call.Admissible (py "audit.jsonl") := by
    intro call hcall
    simp only [sampleCalls, List.mem_cons, List.not_mem_nil, or_false] at hcall
    rcases hcall with rfl | rfl | rfl | rfl | rfl
    · exact ⟨rfl, by decide, by decide +kernel⟩
    · exact ⟨rfl, by decide, by decide +kernel⟩
    · exact True.intro
    · exact True.intro
    · exact True.intro
  have hrot : (System.run sha256Digest {} sampleCalls).rotations ≤ 999999 := by decide +kernel
  have hzero : ((System.run sha256Digest {} sampleCalls).history.all fun entry =>
      hexHashOf (lookup (py "record_hash") entry) != some zeroHash) = true := by decide +kernel
  have hreport : ((verify SampleFloat sha256Digest (py "audit.jsonl")
      (System.run sha256Digest {} sampleCalls).dir false none).toOption.any fun r =>
        r.valid && r.coverage == .fullFromGenesis && decide (0 < r.recordCount)) = true := by
    decide +kernel
  refine ⟨by decide +kernel, ?_⟩
  obtain ⟨r, hr, hreport⟩ := exists_of_any hreport
  simp only [Bool.and_eq_true, beq_iff_eq, decide_eq_true_eq] at hreport
  refine (coverage_truthful sha256Digest (py "audit.jsonl") sampleCalls
    (retaining_of_admissible (intact_start _ _) sampleCalls hcalls hrot) rfl ?_ hr hreport.1.1
    hreport.1.2 hreport.2).1
  intro entry hentry hhash
  have := List.all_eq_true.1 hzero entry hentry
  simp [hhash, hexHashOf, zeroHash_hex] at this

def droppingCalls : List (Call SampleFloat) :=
  [.reopen { sampleConfig with backupCount := 0 } sampleEnv,
    .record 0 (.ok sampleStamp) sampleInput, .rotate 0, .record 0 (.ok sampleStamp) sampleInput]

/-- With `backup_count` 0 the second record starts a new chain: the report says that the log is
    complete from genesis, and the first record is gone. -/
theorem coverage_hides_dropped_record :
    (System.run sha256Digest {} droppingCalls).history.length = 2 ∧
    ∃ r, verify SampleFloat sha256Digest (py "audit.jsonl")
        (System.run sha256Digest {} droppingCalls).dir false none = .ok r ∧
      r.valid = true ∧ r.coverage = .fullFromGenesis ∧ r.recordCount = 1 ∧
      ¬ LogRecords (segmentsFor (py "audit.jsonl") (System.run sha256Digest {} droppingCalls).dir)
        (System.run sha256Digest {} droppingCalls).history := by
  have hlength : (System.run sha256Digest {} droppingCalls).history.length = 2 := by decide +kernel
  have hreport : (match verify SampleFloat sha256Digest (py "audit.jsonl")
      (System.run sha256Digest {} droppingCalls).dir false none with
      | .ok r => r.valid && r.coverage == .fullFromGenesis && r.recordCount == 1
      | .error _ => false) = true := by decide +kernel
  refine ⟨hlength, ?_⟩
  split at hreport
  · next r hr =>
    simp only [Bool.and_eq_true, beq_iff_eq] at hreport
    refine ⟨r, hr, hreport.1.1, hreport.1.2, hreport.2, fun hlog => ?_⟩
    obtain ⟨s, -, -, hcount, -⟩ := verify_records hr hreport.1.1 hlog
    rw [hlength, hreport.2] at hcount
    exact absurd hcount (by decide)
  · exact absurd hreport (by simp)

end Elyra.Audit
