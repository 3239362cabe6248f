import Elyra.Audit.Append

set_option autoImplicit false
set_option linter.unusedSectionVars false

/-! # The tail of a valid log

What the next append takes from a valid log: `_tail_state_locked` finds the hash and the sequence
number the verifier ends with (`tailState_valid`), provided the last record of each segment lies
within the window it reads and the logger is in step with records that carry no number. A record
built on that state extends the chain, also after retention has removed the start of the log
(`append_valid`). -/

namespace Elyra.Audit

open Elyra.Python

variable {F : Type} [FloatNum F] {H : HexDigest}

/-! ## Valid logs -/

/-- The directory holds these records and the verifier ends its scan in `s`. -/
structure ValidLog (H : HexDigest) (fileName : PyStr) (dir : Dir) (records : List (Mapping F))
    (s : Scan) : Prop where
  holds : Holds (contents fileName dir) records
  checked : checkAll H {} records = some s

/-- `verify_audit_directory` reports a directory valid exactly when it is a valid log. -/
theorem verify_iff {fileName : PyStr} {dir : Dir} {repaired : Bool} {artifact : Option PyStr}
    {r : IntegrityReport} :
    (verify F H fileName dir repaired artifact = .ok r ∧ r.valid = true) ↔
      ∃ (records : List (Mapping F)) (s : Scan), ValidLog H fileName dir records s ∧
        r = s.report (contents fileName dir).length repaired artifact := by
  unfold verify
  rw [verify_valid_iff, segmentsFor_length]
  constructor
  · rintro ⟨records, s, hlog, hcheck, hr⟩
    exact ⟨records, s, ⟨logRecords_iff.1 hlog, hcheck⟩, hr⟩
  · rintro ⟨records, s, ⟨hlog, hcheck⟩, hr⟩
    exact ⟨records, s, logRecords_iff.2 hlog, hcheck, hr⟩

theorem ValidLog.verify {fileName : PyStr} {dir : Dir} {records : List (Mapping F)} {s : Scan}
    (h : ValidLog H fileName dir records s) (repaired : Bool) (artifact : Option PyStr) :
    Elyra.Audit.verify F H fileName dir repaired artifact =
      .ok (s.report (contents fileName dir).length repaired artifact) :=
  (verify_iff.2 ⟨records, s, h, rfl⟩).1

theorem zeroHash_hex : validHexHash zeroHash = true := by decide

theorem hexHashOf_hex {v : Option (Json F)} {h : PyStr} (hv : hexHashOf v = some h) :
    validHexHash h = true := by
  unfold hexHashOf at hv
  split at hv
  · split at hv
    · next hs =>
      simp only [Option.some.injEq] at hv
      exact hv ▸ hs
    · exact absurd hv (by simp)
  · exact absurd hv (by simp)

theorem checkAll_hex {s s' : Scan} {records : List (Mapping F)} (h : checkAll H s records = some s')
    (hs : validHexHash s.lastHash = true) : validHexHash s'.lastHash = true := by
  rcases List.eq_nil_or_concat records with rfl | ⟨init, entry, rfl⟩
  · simp only [checkAll, Option.some.injEq] at h
    exact h ▸ hs
  · rw [List.concat_eq_append] at h
    exact hexHashOf_hex (checkAll_last h).1

/-! ## Reading the tail -/

/-- The non-blank lines of a segment, one for each record. -/
theorem decodeAll_lines {lines : List Bytes} {records : List (Mapping F)}
    (h : decodeAll lines = some records) :
    List.Forall₂ (fun line entry => blank line = false ∧ decodeLine line = .ok (some entry))
      (lines.filter (fun line => !blank line)) records := by
  induction lines generalizing records with
  | nil =>
      simp only [decodeAll, Option.some.injEq] at h
      subst h
      exact .nil
  | cons line lines ih =>
      simp only [decodeAll] at h
      cases hblank : blank line with
      | true =>
          have hline : decodeLine (F := F) line = .ok none := by simp [decodeLine, hblank]
          rw [hline] at h
          split at h
          · next heq hrest =>
            simp only [Option.some.injEq] at h
            subst h
            simpa [hblank] using ih hrest
          · next heq _ => exact absurd heq (by simp)
          · exact absurd h (by simp)
      | false =>
          split at h
          · next hline hrest =>
            exfalso
            unfold decodeLine at hline
            rw [if_neg (by simp [hblank])] at hline
            split at hline
            · exact absurd hline (by simp)
            · split at hline <;> exact absurd hline (by simp)
          · next entry records' hline hrest =>
            simp only [Option.some.injEq] at h
            subst h
            simpa [hblank] using List.Forall₂.cons ⟨hblank, hline⟩ (ih hrest)
          · exact absurd h (by simp)

/-- The window reaches the last non-blank line of the segment. -/
def TailSeen (data : Bytes) : Prop := (tailLines data).getLast? = (recordLines data).getLast?

/-- The search for the last record, newest segment first, meets it within the window. -/
def TailReached : List Bytes → Prop
  | [] => True
  | data :: older => TailSeen data ∧ (recordLines data = [] → TailReached older)

theorem tailReached_of_seen {segments : List Bytes} (h : ∀ data ∈ segments, TailSeen data) :
    TailReached segments := by
  induction segments with
  | nil => trivial
  | cons data older ih =>
      obtain ⟨hdata, hrest⟩ := List.forall_mem_cons.1 h
      exact ⟨hdata, fun _ => ih hrest⟩

/-- Retention takes segments from the far end of the search. -/
theorem TailReached.take {segments : List Bytes} (h : TailReached segments) (j : Nat) :
    TailReached (segments.take j) := by
  induction segments generalizing j with
  | nil => simpa using h
  | cons data older ih =>
      cases j with
      | zero => trivial
      | succ j => exact ⟨h.1, fun hnil => ih (h.2 hnil) j⟩

/-- What the tail of a list of records says. -/
def tailOf (lastSequence : Int) (records : List (Mapping F)) (s : Scan) : PyStr × Int :=
  match records.getLast? with
  | none => (zeroHash, 0)
  | some entry => (s.lastHash, ((lookup (py "sequence") entry).bind sequenceNumber).getD lastSequence)

theorem tailEntry_of_decodeLine {line : Bytes} {entry : Mapping F} {h : PyStr} {n : Int}
    (hblank : blank line = false) (hline : decodeLine line = .ok (some entry))
    (hhash : hexHashOf (lookup (py "record_hash") entry) = some h) :
    tailEntry F n line = .ok (h, ((lookup (py "sequence") entry).bind sequenceNumber).getD n) := by
  unfold decodeLine at hline
  rw [if_neg (by simp [hblank])] at hline
  split at hline
  · exact absurd hline (by simp)
  · next text htext =>
    split at hline
    · exact absurd hline (by simp)
    · exact absurd hline (by simp)
    · next entry' hloads =>
      simp only [Except.ok.injEq, Option.some.injEq] at hline
      subst hline
      simp only [tailEntry, htext, hloads, hhash]
    · exact absurd hline (by simp)

theorem forall₂_getLast? {α β : Type} {R : α → β → Prop} {as : List α} {bs : List β}
    (h : List.Forall₂ R as bs) :
    (as.getLast? = none ∧ bs = []) ∨
      ∃ a init b, as.getLast? = some a ∧ bs = init ++ [b] ∧ R a b := by
  induction h with
  | nil => exact .inl ⟨rfl, rfl⟩
  | @cons a b as bs hab h ih =>
      right
      rcases ih with ⟨hnone, rfl⟩ | ⟨a', init, b', ha', rfl, hr⟩
      · rw [List.getLast?_eq_none_iff] at hnone
        subst hnone
        exact ⟨a, [], b, rfl, rfl, hab⟩
      · refine ⟨a', b :: init, b', ?_, rfl, hr⟩
        rw [List.getLast?_cons, ha']
        rfl

/-- The segments from the newest to the oldest: a segment without records is passed over. -/
theorem tailFrom_spec (n : Int) {segments : List (PyStr × Bytes)} {records : List (Mapping F)}
    {s : Scan} (hholds : Holds (segments.reverse.map Prod.snd) records)
    (hcheck : checkAll H {} records = some s)
    (hseen : TailReached (segments.map Prod.snd)) :
    tailFrom F n segments = .ok (tailOf n records s) := by
  induction segments generalizing records with
  | nil =>
      have : records = [] := hholds.unique holds_nil
      subst this
      rfl
  | cons segment older ih =>
      rw [List.reverse_cons, List.map_append] at hholds
      obtain ⟨r₁, r₂, hold, hnew, rfl⟩ := holds_append.1 hholds
      have hlines : List.Forall₂
          (fun line entry => blank line = false ∧ decodeLine line = .ok (some entry))
          (recordLines segment.2) r₂ := by
        refine decodeAll_lines ?_
        simpa using hnew.decoded
      obtain ⟨hwindow, hseen⟩ := hseen
      unfold TailSeen at hwindow
      rcases forall₂_getLast? hlines with ⟨hnone, rfl⟩ | ⟨line, init, entry, hlast, rfl, hblank, hline⟩
      · rw [List.append_nil] at hcheck ⊢
        simp only [tailFrom, hwindow, hnone]
        exact ih hold hcheck (hseen (List.getLast?_eq_none_iff.1 hnone))
      · rw [← List.append_assoc] at hcheck ⊢
        simp only [tailFrom, hwindow, hlast]
        rw [tailEntry_of_decodeLine hblank hline (checkAll_last hcheck).1]
        simp [tailOf]

/-- The last record carries its number. -/
def Numbered (records : List (Mapping F)) : Prop :=
  ∀ entry ∈ records.getLast?, ∃ n, (lookup (py "sequence") entry).bind sequenceNumber = some n

/-- The logger has counted as far as the verifier does, or the last record carries its number. -/
def InStep (lg : Logger) (records : List (Mapping F)) (s : Scan) : Prop :=
  s.lastSequence ≤ lg.lastSequence ∨ Numbered records

theorem nextSequence_number {v : Option (Json F)} {m m' n : Int} (h : nextSequence m v = some m')
    (hn : v.bind sequenceNumber = some n) : m' = n := by
  unfold nextSequence at h
  split at h
  · exact absurd hn (by simp)
  · exact absurd hn (by simp [sequenceNumber])
  · next v _ =>
    simp only [Option.bind_some] at hn
    rw [hn] at h
    simp only at h
    split at h
    · exact absurd h (by simp)
    · simpa using h.symm

/-- **The next append continues where the verifier ends.** -/
theorem tailState_valid {lg : Logger} {dir : Dir} {records : List (Mapping F)} {s : Scan}
    (hvalid : ValidLog H lg.config.fileName dir records s)
    (hseen : TailReached (contents lg.config.fileName dir).reverse)
    (hstep : InStep lg records s) :
    ∃ n, tailState F lg dir = .ok (s.lastHash, n) ∧ s.lastSequence ≤ n ∧
      (Numbered records → n = s.lastSequence) ∧
      (records ≠ [] → ¬ Numbered records → n = lg.lastSequence) := by
  have htail : tailState F lg dir = .ok (tailOf lg.lastSequence records s) := by
    unfold tailState
    refine tailFrom_spec lg.lastSequence ?_ hvalid.checked ?_
    · rw [List.reverse_reverse]
      exact hvalid.holds
    · rw [List.map_reverse]
      exact hseen
  rw [htail]
  rcases List.eq_nil_or_concat records with rfl | ⟨init, entry, rfl⟩
  · have hs := hvalid.checked
    simp only [checkAll, Option.some.injEq] at hs
    subst hs
    exact ⟨0, rfl, le_rfl, fun _ => rfl, fun hne => absurd rfl hne⟩
  · have hs := hvalid.checked
    simp only [List.concat_eq_append] at hs hstep ⊢
    obtain ⟨-, -, t, -, hseq⟩ := checkAll_last hs
    simp only [tailOf, List.getLast?_append, List.getLast?_singleton, Option.some_or]
    cases hn : (lookup (py "sequence") entry).bind sequenceNumber with
    | some n =>
        have hsame := nextSequence_number hseq hn
        refine ⟨n, rfl, hsame.le, fun _ => hsame.symm, fun _ hnot => absurd ?_ hnot⟩
        intro e he
        simp only [List.getLast?_append, List.getLast?_singleton, Option.some_or, Option.mem_def,
          Option.some.injEq] at he
        exact ⟨n, he ▸ hn⟩
    | none =>
        have hnot : ¬ Numbered (init ++ [entry]) := by
          intro hnumbered
          obtain ⟨n, hn'⟩ := hnumbered entry (by simp)
          rw [hn] at hn'
          exact absurd hn' (by simp)
        exact ⟨lg.lastSequence, rfl, hstep.resolve_right hnot, fun h => absurd h hnot,
          fun _ _ => rfl⟩

/-! ## Segments whose tail is seen -/

theorem lastBytes_append {n : Nat} (a l : Bytes) (hl : l.length ≤ n) :
    lastBytes n (a ++ l) = lastBytes (n - l.length) a ++ l := by
  have hwhole : l.reverse.take n = l.reverse := List.take_of_length_le (by simpa using hl)
  unfold lastBytes
  rw [List.reverse_append, List.take_append, hwhole, List.length_reverse, List.reverse_append,
    List.reverse_reverse]

/-- The end of a complete segment is complete. -/
theorem lastBytes_complete (n : Nat) {a : Bytes} (ha : a = [] ∨ endsWithLf a = true) :
    lastBytes n a = [] ∨ endsWithLf (lastBytes n a) = true := by
  rcases ha with rfl | ha
  · exact .inl (by simp [lastBytes])
  · cases n with
    | zero => exact .inl (by simp [lastBytes])
    | succ n =>
        rcases List.eq_nil_or_concat a with rfl | ⟨init, b, rfl⟩
        · exact .inl (by simp [lastBytes])
        · right
          simp only [List.concat_eq_append, endsWithLf, lastBytes, List.getLast?_append,
            List.getLast?_singleton, Option.some_or, beq_iff_eq, Option.some.injEq] at ha ⊢
          simp [ha]

theorem tailSeen_nil : TailSeen [] := rfl

/-- A segment whose last line fits in the window. -/
theorem tailSeen_line {a body : Bytes} (ha : a = [] ∨ endsWithLf a = true)
    (hbody : ∀ b ∈ body, b ≠ lf ∧ b ≠ cr) (hblank : blank body = false)
    (hlen : (body ++ [lf]).length ≤ tailWindow) : TailSeen (a ++ (body ++ [lf])) := by
  unfold TailSeen tailLines recordLines
  rw [lastBytes_append a _ hlen, splitlines_append ha, splitlines_line hbody,
    splitlines_append (lastBytes_complete _ ha), splitlines_line hbody]
  simp [hblank]

/-! ## Extending a valid log -/

/-- The record is about its input. -/
structure Carries (input : RecordInput F) (entry : Mapping F) : Prop where
  source : lookup (py "source") entry = some (.str input.source)
  subject : lookup (py "subject") entry = some (.str input.subject)
  payload : lookup (py "payload") entry = some (safeValue (.obj input.payload))

/-- What a plan holds. -/
structure PlanFacts (H : HexDigest) (lg : Logger) (dir : Dir) (stamp : Stamp F)
    (input : RecordInput F) (plan : Plan F) : Prop where
  carries : Carries input plan.entry
  recordId : lookup (py "record_id") plan.entry = some (.str stamp.recordId)
  built : Built H lg.lastHash lg.lastSequence plan.hash plan.entry
  hex : validHexHash plan.hash = true
  encoded : encodeLine plan.entry = .ok plan.line
  bounded : (plan.line.length : Int) ≤ lg.config.maxRecordBytes
  effects : plan.effects = appendEffects lg.config dir plan.line

theorem planAppend_facts {lg : Logger} {dir : Dir} {stamp : Stamp F} {input : RecordInput F}
    {plan : Plan F} (h : planAppend H lg dir stamp input = .ok plan) :
    PlanFacts H lg dir stamp input plan := by
  unfold planAppend at h
  split at h
  · exact absurd h (by simp)
  · next entry hentry =>
    obtain ⟨hash, hbuilt, hhex⟩ := buildEntry_built hentry
    split at h
    · exact absurd h (by simp)
    · next line hline =>
      split at h
      · exact absurd h (by simp)
      · next hsize =>
        simp only [Except.ok.injEq] at h
        subst h
        have hhash : (hexHashOf (lookup (py "record_hash") entry)).getD zeroHash = hash := by
          simp [hbuilt.hash_eq, hexHashOf, hhex]
        refine ⟨?_, ?_, ?_, ?_, hline, not_lt.1 hsize, rfl⟩
        · obtain ⟨-, -, rfl⟩ := buildEntry_eq hentry
          exact ⟨rfl, rfl, rfl⟩
        · obtain ⟨-, -, rfl⟩ := buildEntry_eq hentry
          rfl
        · simp only [hhash]
          exact hbuilt
        · simp only [hhash]
          exact hhex

/-- What a call of `record` has when it starts to write. -/
theorem prepare_ok {lg lg' : Logger} {dir : Dir} {stamp : Except PyExc (Stamp F)}
    {input : RecordInput F} {plan : Plan F}
    (h : prepare H lg dir stamp input = (lg', .ok plan)) :
    ∃ hash n st, tailState F lg dir = .ok (hash, n) ∧ stamp = .ok st ∧
      lg' = { lg with lastHash := hash, lastSequence := n } ∧ PlanFacts H lg' dir st input plan := by
  unfold prepare refresh at h
  split at h
  · exact absurd (congrArg Prod.snd h) (by simp)
  · next lg₁ hrefresh =>
    split at hrefresh
    · exact absurd hrefresh (by simp)
    · split at hrefresh
      · exact absurd hrefresh (by simp)
      · next hash n htail =>
        simp only [Except.ok.injEq] at hrefresh
        split at h
        · exact absurd (congrArg Prod.snd h) (by simp)
        · next st =>
          simp only [Prod.mk.injEq] at h
          obtain ⟨rfl, hplan⟩ := h
          exact ⟨hash, n, st, htail, rfl, hrefresh.symm, planAppend_facts hplan⟩

theorem prepare_config {lg : Logger} {dir : Dir} {stamp : Except PyExc (Stamp F)}
    {input : RecordInput F} : (prepare H lg dir stamp input).1.config = lg.config := by
  unfold prepare
  split
  · rfl
  · next lg₁ hrefresh =>
    have hconfig : lg₁.config = lg.config := by
      unfold refresh at hrefresh
      split at hrefresh
      · exact absurd hrefresh (by simp)
      · split at hrefresh
        · exact absurd hrefresh (by simp)
        · simp only [Except.ok.injEq] at hrefresh
          rw [← hrefresh]
    split <;> exact hconfig

/-- The end of a checked list is checked from scratch. -/
theorem checkAll_kept {gone kept : List (Mapping F)} {s : Scan}
    (h : checkAll H {} (gone ++ kept) = some s) :
    ∃ t, checkAll H {} kept = some t ∧ Behind s t ∧
      (kept ≠ [] → t.lastHash = s.lastHash ∧ t.previousHash = s.previousHash) := by
  obtain ⟨g, hg, hkept⟩ := checkAll_append.1 h
  have hcount : ∀ (records : List (Mapping F)) (a b : Scan), checkAll H a records = some b →
      a.lastSequence ≤ b.lastSequence := by
    intro records
    induction records with
    | nil =>
        intro a b hab
        simp only [checkAll, Option.some.injEq] at hab
        rw [hab]
    | cons entry records ih =>
        intro a b hab
        simp only [checkAll] at hab
        split at hab
        · next a' ha' =>
          obtain ⟨stored, prev, sequence, -, -, -, -, -, hseq, rfl⟩ := checkRecord_ok_iff.1 ha'
          refine le_trans ?_ (ih _ b hab)
          simp only
          unfold nextSequence at hseq
          split at hseq
          · simp only [Option.some.injEq] at hseq; omega
          · simp only [Option.some.injEq] at hseq; omega
          · split at hseq
            · exact absurd hseq (by simp)
            · split at hseq
              · exact absurd hseq (by simp)
              · simp only [Option.some.injEq] at hseq; omega
        · exact absurd hab (by simp)
  have hbehind : Behind g {} := ⟨.inl rfl, hcount gone {} g hg⟩
  exact hbehind.checkAll hkept

/-- A record built on the end of a log extends what is kept of it. -/
theorem checkAll_extend {gone kept : List (Mapping F)} {s : Scan} {hash : PyStr} {entry : Mapping F}
    {n : Int} (h : checkAll H {} (gone ++ kept) = some s) (hn : s.lastSequence ≤ n)
    (hbuilt : Built H s.lastHash n hash entry) (hhex : validHexHash hash = true) :
    ∃ t, checkAll H {} (kept ++ [entry]) = some t ∧ t.lastHash = hash ∧ t.lastSequence = n + 1 := by
  obtain ⟨t, ht, hbehind, -⟩ := checkAll_kept h
  have hlink : t.previousHash = none ∨ t.previousHash = some s.lastHash := by
    rcases hbehind.link with h' | h'
    · exact .inl h'
    · rw [h']
      exact checkAll_link h (.inl rfl)
  have hstep := hbuilt.check hhex (checkAll_hex h zeroHash_hex) hlink
    (hbehind.count.trans hn)
  exact ⟨_, checkAll_append.2 ⟨t, ht, hstep⟩, rfl, rfl⟩

/-- **A whole append extends a valid log.** -/
theorem append_valid {lg : Logger} {dir dir' : Dir} {records : List (Mapping F)} {s : Scan}
    {stamp : Stamp F} {input : RecordInput F} {plan : Plan F}
    (hplan : PlanFacts H lg dir stamp input plan)
    (hvalid : ValidLog H lg.config.fileName dir records s) (hhash : lg.lastHash = s.lastHash)
    (hseq : s.lastSequence ≤ lg.lastSequence)
    {limit : Nat} {active : Option Bytes}
    (hstate : AppendState (contents lg.config.fileName dir) limit plan.line
      (contents lg.config.fileName dir') active) :
    ∃ j gone kept t, j ≤ limit ∧
      records = gone ++ kept ∧ Holds ((contents lg.config.fileName dir).take j) gone ∧
      Holds ((contents lg.config.fileName dir).drop j) kept ∧
      ValidLog H lg.config.fileName dir' (kept ++ [plan.entry]) t ∧
      t.lastHash = plan.hash ∧ t.lastSequence = lg.lastSequence + 1 := by
  obtain ⟨j, gone, kept, hj, rfl, hgone, hkept, -, hline⟩ := hstate.holds hvalid.holds
  have hbuilt := hplan.built
  rw [hhash] at hbuilt
  obtain ⟨t, ht, hthash, htseq⟩ := checkAll_extend hvalid.checked hseq hbuilt hplan.hex
  exact ⟨j, gone, kept, t, hj, rfl, hgone, hkept,
    ⟨hline plan.entry hbuilt.wf hplan.encoded, ht⟩, hthash, htseq⟩

/-- An append that stopped before its first byte leaves a valid log. -/
theorem stopped_valid {fileName : PyStr} {dir dir' : Dir} {records : List (Mapping F)} {s : Scan}
    (hvalid : ValidLog H fileName dir records s) {limit : Nat} {active : Option Bytes}
    (hstate : AppendState (contents fileName dir) limit [] (contents fileName dir') active) :
    ∃ j gone kept t, j ≤ limit ∧
      records = gone ++ kept ∧ Holds ((contents fileName dir).take j) gone ∧
      Holds ((contents fileName dir).drop j) kept ∧
      ValidLog H fileName dir' kept t ∧ Behind s t ∧
      (kept ≠ [] → t.lastHash = s.lastHash ∧ t.previousHash = s.previousHash) := by
  obtain ⟨j, gone, kept, hj, rfl, hgone, hkept, hnil, -⟩ := hstate.holds hvalid.holds
  obtain ⟨t, ht, hbehind, hlast⟩ := checkAll_kept hvalid.checked
  exact ⟨j, gone, kept, t, hj, rfl, hgone, hkept, ⟨hnil rfl, ht⟩, hbehind, hlast⟩

end Elyra.Audit
