import Elyra.Python.JsonSuffix
import Elyra.Audit.Recovery

set_option autoImplicit false
set_option linter.unusedSectionVars false

/-! # The tail window

`_tail_state_locked` reads the last 1 MiB of a segment, while a record may be as long as
`max_record_bytes` says. On a log that only `record` has written, the newest line decides: when it
fits in the window, the tail is the end the verifier reports; when it does not, the window holds a
proper end of the line, which is no JSON object, and every read of the tail raises
(`tail_fast_path_iff`). -/

namespace Elyra.Audit

open Elyra.Python

variable {F : Type} [FloatNum F] {H : HexDigest}

/-! ## Segments of records -/

/-- A line that `record` writes. -/
def RecordLine (F : Type) [FloatNum F] (H : HexDigest) (line : Bytes) : Prop :=
  ∃ (prev hash : PyStr) (n : Int) (entry : Mapping F), Built H prev n hash entry ∧
    validHexHash hash = true ∧ encodeLine entry = .ok line

/-- A segment that only `record` has written. -/
inductive Recorded (F : Type) [FloatNum F] (H : HexDigest) : Bytes → Prop
  | empty : Recorded F H []
  | append {data line : Bytes} (hdata : Recorded F H data) (hline : RecordLine F H line) :
      Recorded F H (data ++ line)

/-- The newest line of a log, without its line feed. -/
def newestLine (fileName : PyStr) (dir : Dir) : Option Bytes :=
  ((contents fileName dir).flatMap recordLines).getLast?

/-- The newest line fits in the window. -/
def NewestFits (fileName : PyStr) (dir : Dir) : Prop :=
  ∀ line ∈ newestLine fileName dir, line.length + 1 ≤ tailWindow

theorem Recorded.complete {data : Bytes} (h : Recorded F H data) :
    data = [] ∨ endsWithLf data = true := by
  cases h with
  | empty => exact .inl rfl
  | append hdata hline =>
      obtain ⟨prev, hash, n, entry, hbuilt, -, hencode⟩ := hline
      obtain ⟨body, rfl, -⟩ := decodeLine_encodeLine hbuilt.wf hencode
      exact .inr (endsWithLf_append (endsWithLf_append rfl))

/-- The records of such a segment, each with its number. -/
theorem Recorded.holds {data : Bytes} (h : Recorded F H data) :
    ∃ records : List (Mapping F), Holds [data] records ∧
      ∀ entry ∈ records, ∃ n, lookup (py "sequence") entry = some (.int n) := by
  induction h with
  | empty => exact ⟨[], holds_empty, by simp⟩
  | append _ hline ih =>
      obtain ⟨records, hholds, hnumbers⟩ := ih
      obtain ⟨prev, hash, n, entry, hbuilt, -, hencode⟩ := hline
      refine ⟨records ++ [entry], holds_line hbuilt.wf hencode hholds, fun e he => ?_⟩
      rcases List.mem_append.1 he with he | he
      · exact hnumbers e he
      · rw [List.mem_singleton] at he
        exact ⟨n + 1, by rw [he, hbuilt.sequence_eq]⟩

theorem recorded_numbers {segments : List Bytes} (h : ∀ data ∈ segments, Recorded F H data)
    {records : List (Mapping F)} (hholds : Holds segments records) :
    ∀ entry ∈ records, ∃ n, lookup (py "sequence") entry = some (.int n) := by
  induction segments generalizing records with
  | nil =>
      obtain rfl := hholds.unique holds_nil
      simp
  | cons data segments ih =>
      obtain ⟨hdata, hrest⟩ := List.forall_mem_cons.1 h
      rw [← List.singleton_append] at hholds
      obtain ⟨r₁, r₂, hr₁, hr₂, rfl⟩ := holds_append.1 hholds
      obtain ⟨r, hr, hnumbers⟩ := hdata.holds
      obtain rfl := hr.unique hr₁
      intro entry hentry
      rcases List.mem_append.1 hentry with hentry | hentry
      · exact hnumbers entry hentry
      · exact ih hrest hr₂ entry hentry

/-! ## A line that is too long -/

theorem tailEntry_not_obj {line : Bytes} {n : Int}
    (h : ∀ text, decodeUtf8 line = some text → ∀ entry : Mapping F, loads text ≠ .ok (.obj entry)) :
    ∃ x, tailEntry F n line = .error x := by
  unfold tailEntry
  split
  · exact ⟨_, rfl⟩
  · next text htext =>
    split
    · exact ⟨_, rfl⟩
    · exact ⟨_, rfl⟩
    · next entry hentry => exact absurd hentry (h text htext entry)
    · exact ⟨_, rfl⟩

/-- **The end of a record's line is no record.** -/
theorem tailEntry_end {entry : Mapping F} {a w : Bytes} {n : Int} (hwf : (Json.obj entry).WF)
    (hline : encodeLine entry = .ok (a ++ (w ++ [lf]))) (ha : a ≠ []) :
    ∃ x, tailEntry F n w = .error x := by
  obtain ⟨text, body, htext, hbody, hsplit, -, -⟩ := encodeLine_eq hline
  rw [← List.append_assoc] at hsplit
  obtain rfl := (List.append_inj' hsplit rfl).1
  refine tailEntry_not_obj fun t ht entry' hloads => ?_
  obtain ⟨p, rfl, hp⟩ := decodeUtf8_suffix hbody ht
  have hwhole := loads_dumps hwf htext
  obtain ⟨s, hs⟩ := dumps_obj_head htext
  cases p with
  | nil =>
      simp only [encodeUtf8, Option.some.injEq] at hp
      exact ha hp.symm
  | cons c p =>
      rw [List.cons_append, List.cons.injEq] at hs
      rw [List.cons_append, hs.1] at hwhole
      exact loads_obj_suffix hwhole hloads

/-- An object text ends with its closing brace. -/
theorem print_obj_last (st : Layout) (l : Nat) (entry : Mapping F) :
    ∃ init, (Json.obj entry).print st l = init ++ [125] := by
  cases entry with
  | nil => exact ⟨[123], rfl⟩
  | cons kv entry =>
      refine ⟨123 :: (st.edge (l + 1) ++ (quote kv.1 ++ (58 :: (st.colon ++ (kv.2.print st (l + 1) ++
        (printMembers st (l + 1) entry ++ st.edge l)))))), ?_⟩
      simp [Json.print]

/-- The end of a record's line is not blank. -/
theorem end_not_blank {entry : Mapping F} {a w : Bytes}
    (hline : encodeLine entry = .ok (a ++ (w ++ [lf]))) (hw : w ≠ []) : blank w = false := by
  obtain ⟨text, body, htext, hbody, hsplit, -, -⟩ := encodeLine_eq hline
  rw [← List.append_assoc] at hsplit
  obtain rfl := (List.append_inj' hsplit rfl).1
  obtain ⟨-, rfl⟩ := encodable_of_dumps htext
  obtain ⟨init, hinit⟩ := print_obj_last .compact 0 entry
  rw [hinit] at hbody
  obtain ⟨b₁, b₂, -, hb₂, heq⟩ := encodeUtf8_append.1 hbody
  have hbrace : b₂ = [125] := by simpa [encodeUtf8, utf8Char] using hb₂.symm
  obtain ⟨w, x, rfl⟩ : ∃ w' x, w = w' ++ [x] := by
    rcases List.eq_nil_or_concat w with h | ⟨w', x, h⟩
    · exact absurd h hw
    · exact ⟨w', x, by simpa using h⟩
  rw [hbrace, ← List.append_assoc] at heq
  have hx : x = 125 := by simpa using (List.append_inj' heq rfl).2
  simp [blank, hx, isSpaceByte]

/-! ## The newest line of a segment -/

section Segment

variable {data line : Bytes}

theorem recordLines_append (hdata : Recorded F H data) (hline : RecordLine F H line) :
    ∃ body, line = body ++ [lf] ∧ recordLines (data ++ line) = recordLines data ++ [body] := by
  obtain ⟨prev, hash, n, entry, hbuilt, -, hencode⟩ := hline
  obtain ⟨body, rfl, hends, hblank, -⟩ := decodeLine_encodeLine hbuilt.wf hencode
  refine ⟨body, rfl, ?_⟩
  rw [recordLines, splitlines_append hdata.complete, splitlines_line hends, List.filter_append]
  simp [recordLines, hblank]

theorem tailSeen_append (hdata : Recorded F H data) (hline : RecordLine F H line)
    (hfits : line.length ≤ tailWindow) : TailSeen (data ++ line) := by
  obtain ⟨prev, hash, n, entry, hbuilt, -, hencode⟩ := hline
  obtain ⟨body, rfl, hends, hblank, -⟩ := decodeLine_encodeLine hbuilt.wf hencode
  exact tailSeen_line hdata.complete hends hblank hfits

theorem lastBytes_split (n : Nat) (a : Bytes) :
    ∃ b, a = b ++ lastBytes n a ∧ (lastBytes n a).length = min n a.length := by
  refine ⟨(a.reverse.drop n).reverse, ?_, by simp [lastBytes]⟩
  rw [lastBytes, ← List.reverse_append, List.take_append_drop, List.reverse_reverse]

/-- A window that starts within a line. -/
theorem lastBytes_within {n : Nat} (a : Bytes) {l : Bytes} (h : n ≤ l.length) :
    lastBytes n (a ++ l) = lastBytes n l := by
  unfold lastBytes
  rw [List.reverse_append, List.take_append_of_le_length (by simpa using h)]

/-- The window sees no more than the end of a line that is too long. -/
theorem tailLines_long (data : Bytes) (hline : RecordLine F H line)
    (hlong : tailWindow < line.length) :
    ∃ w, (tailLines (data ++ line)).getLast? = some w ∧
      ∀ n, ∃ x, tailEntry F n w = .error x := by
  obtain ⟨prev, hash, n, entry, hbuilt, -, hencode⟩ := hline
  obtain ⟨body, rfl, hends, -, -⟩ := decodeLine_encodeLine hbuilt.wf hencode
  rw [List.length_append, List.length_singleton] at hlong
  have hwindow : tailWindow = (tailWindow - 1) + 1 := by decide
  obtain ⟨a, hbody, hlen⟩ := lastBytes_split (tailWindow - 1) body
  generalize hw : lastBytes (tailWindow - 1) body = w at hbody hlen
  have hpos : 1 < tailWindow := by decide
  have hwlen : w.length = tailWindow - 1 := by omega
  have hane : a ≠ [] := by
    rintro rfl
    rw [List.nil_append] at hbody
    rw [hbody] at hlong
    omega
  have hsight : lastBytes tailWindow (data ++ (body ++ [lf])) = w ++ [lf] := by
    rw [lastBytes_within _ (by simp; omega), lastBytes_append body [lf] (by simp; omega), ← hw]
    rfl
  have hline : encodeLine entry = .ok (a ++ (w ++ [lf])) := by
    rw [hencode, hbody, List.append_assoc]
  have hwne : w ≠ [] := by
    rintro rfl
    simp at hwlen
    omega
  refine ⟨w, ?_, fun n => tailEntry_end hbuilt.wf hline hane⟩
  have hwends : ∀ b ∈ w, b ≠ lf ∧ b ≠ cr := fun b hb => hends b (by rw [hbody]; simp [hb])
  rw [tailLines, recordLines, hsight, splitlines_line hwends]
  simp [end_not_blank hline hwne]

end Segment

/-! ## The newest line of a log -/

theorem recordLines_nil : recordLines [] = [] := rfl

/-- A log whose newest line fits: the search for the tail meets it. -/
theorem tailReached_of_fits {segments : List Bytes} (h : ∀ data ∈ segments, Recorded F H data)
    (hfits : ∀ line ∈ (segments.reverse.flatMap recordLines).getLast?,
      line.length + 1 ≤ tailWindow) : TailReached segments := by
  induction segments with
  | nil => trivial
  | cons data older ih =>
      obtain ⟨hdata, hrest⟩ := List.forall_mem_cons.1 h
      rw [List.reverse_cons, List.flatMap_append, List.flatMap_singleton] at hfits
      cases hdata with
      | empty =>
          rw [recordLines_nil, List.append_nil] at hfits
          exact ⟨tailSeen_nil, fun _ => ih hrest hfits⟩
      | append hdata hline =>
          obtain ⟨body, hbody, hlines⟩ := recordLines_append hdata hline
          rw [hlines] at hfits
          have hlen := hfits body (by simp)
          refine ⟨tailSeen_append hdata hline (by simpa [hbody] using hlen), fun hnil => ?_⟩
          rw [hlines] at hnil
          exact absurd hnil (by simp)

/-- A log whose newest line does not fit: reading the tail raises. -/
theorem tailFrom_long {segments : List (PyStr × Bytes)} {line : Bytes} (n : Int)
    (h : ∀ segment ∈ segments, Recorded F H segment.2)
    (hnewest : ((segments.reverse.map Prod.snd).flatMap recordLines).getLast? = some line)
    (hlong : tailWindow < line.length + 1) : ∃ x, tailFrom F n segments = .error x := by
  induction segments with
  | nil => exact absurd hnewest (by simp)
  | cons segment older ih =>
      obtain ⟨hdata, hrest⟩ := List.forall_mem_cons.1 h
      rw [List.reverse_cons, List.map_append, List.flatMap_append, List.map_singleton,
        List.flatMap_singleton] at hnewest
      obtain ⟨name, data⟩ := segment
      simp only at hdata hnewest
      cases hdata with
      | empty =>
          have hnone : (tailLines []).getLast? = none := rfl
          rw [recordLines_nil, List.append_nil] at hnewest
          simp only [tailFrom, hnone]
          exact ih hrest hnewest
      | @append data added hdata hadded =>
          obtain ⟨body, hbody, hlines⟩ := recordLines_append hdata hadded
          rw [hlines] at hnewest
          have hline : body = line := by simpa [List.getLast?_append] using hnewest
          obtain ⟨w, hw, herror⟩ := tailLines_long data hadded (by rw [hbody, hline]; simpa using hlong)
          simp only [tailFrom, hw]
          exact herror n

/-- The tail of a log of records is unreadable, or its newest line fits. -/
theorem tailState_long {lg : Logger} {dir : Dir}
    (hwritten : ∀ data ∈ contents lg.config.fileName dir, Recorded F H data)
    (hlong : ¬ NewestFits lg.config.fileName dir) : ∃ x, tailState F lg dir = .error x := by
  simp only [NewestFits, not_forall, not_le] at hlong
  obtain ⟨line, hline, hlong⟩ := hlong
  refine @tailFrom_long _ _ H _ line lg.lastSequence (fun segment hsegment => ?_) ?_ hlong
  · exact hwritten _ (List.mem_map_of_mem (List.mem_reverse.1 hsegment))
  · rw [List.reverse_reverse]
    exact hline

theorem numbered_of_recorded {segments : List Bytes} (h : ∀ data ∈ segments, Recorded F H data)
    {records : List (Mapping F)} (hholds : Holds segments records) : Numbered records := by
  intro entry hentry
  obtain ⟨n, hn⟩ := recorded_numbers h hholds entry (List.mem_of_mem_getLast? hentry)
  exact ⟨n, by simp [hn, sequenceNumber]⟩

/-- The tail of a valid log of records whose newest line fits. -/
theorem tailState_fits {lg : Logger} {dir : Dir} {records : List (Mapping F)} {s : Scan}
    (hvalid : ValidLog H lg.config.fileName dir records s)
    (hwritten : ∀ data ∈ contents lg.config.fileName dir, Recorded F H data)
    (hfits : NewestFits lg.config.fileName dir) :
    tailState F lg dir = .ok (s.lastHash, s.lastSequence) := by
  have hnumbered := numbered_of_recorded hwritten hvalid.holds
  have hreached : TailReached (contents lg.config.fileName dir).reverse := by
    refine tailReached_of_fits (fun data hdata => hwritten data (List.mem_reverse.1 hdata)) ?_
    rw [List.reverse_reverse]
    exact hfits
  obtain ⟨n, htail, -, hn, -⟩ := tailState_valid hvalid hreached (.inr hnumbered)
  rw [htail, hn hnumbered]

/-! ## After a record -/

/-- What a successful `record` leaves in the active file, whatever the rotation did. -/
theorem record_active {lg lg₁ : Logger} {dir dir₁ : Dir} {stamp : Except PyExc (Stamp F)}
    {input : RecordInput F} {hash : PyStr}
    (hwritten : ∀ data ∈ contents lg.config.fileName dir, Recorded F H data)
    (hrecord : record H lg dir stamp input = (.ok hash, lg₁, dir₁)) :
    ∃ (last line : Bytes) (entry : Mapping F) (prev : PyStr) (n : Int), Recorded F H last ∧
      dir₁.files.get? lg.config.fileName = some (last ++ line) ∧ Built H prev n hash entry ∧
      validHexHash hash = true ∧ encodeLine entry = .ok line ∧ lg₁.lastSequence = n + 1 := by
  unfold record at hrecord
  split at hrecord
  · exact absurd (congrArg Prod.fst hrecord) (by simp)
  · next lg' plan hprepare =>
    simp only [Prod.mk.injEq, Except.ok.injEq] at hrecord
    obtain ⟨rfl, rfl, rfl⟩ := hrecord
    obtain ⟨h, n, st, -, -, rfl, hplan⟩ := prepare_ok hprepare
    have heffects := hplan.effects
    simp only at heffects
    have hcut : Cut (appendEffects lg.config dir plan.line) plan.effects := by
      rw [heffects]
      exact cut_all _
    have hline : written plan.effects = plan.line := by
      rw [heffects, appendEffects]
      split
      · rw [written_quiet rotateEffects_quiet]
        simp [written]
      · simp [written]
    have hsome : written plan.effects ≠ [] := by
      rw [hline]
      obtain ⟨body, hbody, -⟩ := decodeLine_encodeLine hplan.built.wf hplan.encoded
      simp [hbody]
    obtain ⟨-, last, hlast, hactive⟩ := cut_active hcut hsome
    rw [hline] at hactive
    refine ⟨last, plan.line, plan.entry, _, _, ?_, hactive, hplan.built, hplan.hex, hplan.encoded,
      rfl⟩
    rcases hlast with rfl | hlast
    · exact .empty
    · exact hwritten last (by rw [active_last hlast]; simp)

/-- The search for the tail starts at the active file. -/
theorem tailState_active {lg : Logger} {dir : Dir} {data line : Bytes}
    (hactive : dir.files.get? lg.config.fileName = some data)
    (hlast : (tailLines data).getLast? = some line) :
    tailState F lg dir = tailEntry F lg.lastSequence line := by
  simp only [tailState, segmentsFor, hactive, List.reverse_append, List.reverse_cons,
    List.reverse_nil, List.nil_append, List.singleton_append, tailFrom, hlast]

theorem newestLine_active {fileName : PyStr} {dir : Dir} {data body : Bytes} {lines : List Bytes}
    (hactive : dir.files.get? fileName = some data) (hlines : recordLines data = lines ++ [body]) :
    newestLine fileName dir = some body := by
  simp [newestLine, contents_eq, hactive, hlines]

/-- After a record, every instance reads it back from the tail, if its line fits. -/
theorem tailState_after_record {lg lg₁ lg₂ : Logger} {dir dir₁ : Dir}
    {stamp : Except PyExc (Stamp F)} {input : RecordInput F} {hash : PyStr}
    (hwritten : ∀ data ∈ contents lg.config.fileName dir, Recorded F H data)
    (hrecord : record H lg dir stamp input = (.ok hash, lg₁, dir₁))
    (hname : lg₂.config.fileName = lg.config.fileName) :
    (NewestFits lg.config.fileName dir₁ →
      tailState F lg₂ dir₁ = .ok (hash, lg₁.lastSequence)) ∧
    (¬ NewestFits lg.config.fileName dir₁ → ∃ x, tailState F lg₂ dir₁ = .error x) := by
  obtain ⟨last, line, entry, prev, n, hlast, hactive, hbuilt, hhex, hencode, hseq⟩ :=
    record_active hwritten hrecord
  have hline : RecordLine F H line := ⟨prev, hash, n, entry, hbuilt, hhex, hencode⟩
  obtain ⟨body, hbody, hlines⟩ := recordLines_append hlast hline
  have hnewest := newestLine_active hactive hlines
  have hlength : line.length = body.length + 1 := by simp [hbody]
  rw [← hname] at hactive
  constructor
  · intro hfits
    have hseen := tailSeen_append hlast hline (hlength ▸ hfits body hnewest)
    rw [TailSeen, hlines] at hseen
    obtain ⟨body', hbody', -, hblank, hdecode⟩ := decodeLine_encodeLine hbuilt.wf hencode
    obtain rfl : body = body' := by simpa [hbody] using hbody'
    have hhash : hexHashOf (lookup (py "record_hash") entry) = some hash := by
      simp [hbuilt.hash_eq, hexHashOf, hhex]
    rw [tailState_active hactive (by simpa using hseen),
      tailEntry_of_decodeLine hblank hdecode hhash, hseq, hbuilt.sequence_eq]
    rfl
  · intro hlong
    have hlong' : tailWindow < line.length := by
      by_contra hle
      refine hlong fun line' hline' => ?_
      rw [hnewest, Option.mem_def, Option.some.injEq] at hline'
      rw [← hline']
      omega
    obtain ⟨w, hw, herror⟩ := tailLines_long last hline hlong'
    rw [tailState_active hactive hw]
    exact herror _

/-! ## Exactly when -/

/-- A record about nothing in particular. -/
def emptyInput (F : Type) : RecordInput F where
  source := py "audit"
  subject := py "audit"
  payload := []
  wf := ⟨List.nodup_nil, trivial⟩

/-- The tail is taken over whatever the next record is about. -/
theorem refresh_iff {lg : Logger} {dir : Dir} {hash : PyStr} {n : Int} :
    (∀ next : RecordInput F, validateRecordInput next = .ok () →
      refresh F lg dir next = .ok { lg with lastHash := hash, lastSequence := n }) ↔
    tailState F lg dir = .ok (hash, n) := by
  constructor
  · intro h
    have hinput := h (emptyInput F) rfl
    simp only [refresh] at hinput
    split at hinput
    · exact absurd hinput (by simp)
    · split at hinput
      · exact absurd hinput (by simp)
      · next h' n' htail =>
        simp only [Except.ok.injEq, Logger.mk.injEq, true_and, and_true] at hinput
        rw [htail, hinput.1, hinput.2]
  · intro h next hnext
    simp only [refresh, hnext, h]

/-- **The tail agrees with the verifier exactly when the newest line fits in the window**, on every
    valid log that `record` has written; and the next `record` of any instance, whatever it is
    about, chains to the one just written exactly when that one's line fits. -/
theorem tail_fast_path_iff {lg : Logger} {dir : Dir} {repaired : Bool} {artifact : Option PyStr}
    {r : IntegrityReport}
    (hverify : verify F H lg.config.fileName dir repaired artifact = .ok r) (hvalid : r.valid = true)
    (hwritten : ∀ data ∈ contents lg.config.fileName dir, Recorded F H data) :
    (tailState F lg dir = .ok (r.lastHash, r.lastSequence) ↔
      NewestFits lg.config.fileName dir) ∧
    ∀ (stamp : Except PyExc (Stamp F)) (input : RecordInput F) (hash : PyStr) (lg₁ : Logger)
      (dir₁ : Dir), record H lg dir stamp input = (.ok hash, lg₁, dir₁) →
      ∀ lg₂ : Logger, lg₂.config.fileName = lg.config.fileName →
        ((∀ next : RecordInput F, validateRecordInput next = .ok () → refresh F lg₂ dir₁ next =
            .ok { lg₂ with lastHash := hash, lastSequence := lg₁.lastSequence }) ↔
          NewestFits lg.config.fileName dir₁) := by
  obtain ⟨records, s, hlog, rfl⟩ := verify_iff.1 ⟨hverify, hvalid⟩
  refine ⟨⟨fun htail => ?_, fun hfits => tailState_fits hlog hwritten hfits⟩, ?_⟩
  · by_contra hlong
    obtain ⟨x, hx⟩ := tailState_long hwritten hlong
    rw [hx] at htail
    exact absurd htail (by simp)
  · intro stamp input hash lg₁ dir₁ hrecord lg₂ hname
    obtain ⟨hfits, hlong⟩ := tailState_after_record hwritten hrecord hname
    rw [refresh_iff]
    refine ⟨fun htail => ?_, hfits⟩
    by_contra h
    obtain ⟨x, hx⟩ := hlong h
    rw [hx] at htail
    exact absurd htail (by simp)

/-! ## The first record of a directory -/

/-- A record that can be encoded and is not too long starts the log. -/
theorem record_first {c : Config} {stamp : Stamp F} {input : RecordInput F} {entry : Mapping F}
    {line : Bytes} (hinput : validateRecordInput input = .ok ())
    (hentry : buildEntry H stamp zeroHash 0 input = .ok entry) (hline : encodeLine entry = .ok line)
    (hsize : (line.length : Int) ≤ c.maxRecordBytes) :
    ∃ hash, Built H zeroHash 0 hash entry ∧ validHexHash hash = true ∧
      record H { config := c } {} (.ok stamp) input =
        (.ok hash, { config := c, lastHash := hash, lastSequence := 1 },
          { files := Dict.empty.set c.fileName line }) := by
  obtain ⟨hash, hbuilt, hhex⟩ := buildEntry_built hentry
  have hhash : (hexHashOf (lookup (py "record_hash") entry)).getD zeroHash = hash := by
    simp [hbuilt.hash_eq, hexHashOf, hhex]
  have htail : tailState F { config := c } {} = .ok (zeroHash, 0) := rfl
  refine ⟨hash, hbuilt, hhex, ?_⟩
  simp only [record, prepare, refresh, hinput, htail, planAppend, hentry, hline,
    if_neg (not_lt.2 hsize), hhash]
  have hfiles : ((Dict.empty : Dict PyStr Bytes).set c.fileName []).set c.fileName line =
      Dict.empty.set c.fileName line := by simp [Dict.set, Dict.empty, assign]
  simp [needsRotation, applyAll, Effect.apply, hfiles]

/-- The log of one record. -/
theorem validLog_first {fileName hash : PyStr} {entry : Mapping F} {line : Bytes}
    (hbuilt : Built H zeroHash 0 hash entry) (hhex : validHexHash hash = true)
    (hline : encodeLine entry = .ok line) :
    ∃ s : Scan, ValidLog H fileName { files := Dict.empty.set fileName line } [entry] s ∧
      s.recordCount = 1 ∧
      ∀ data ∈ contents fileName { files := Dict.empty.set fileName line }, Recorded F H data := by
  have hcontents : contents fileName { files := Dict.empty.set fileName line } = [line] := by
    rw [contents, segmentsFor_single]
    rfl
  have hholds : Holds [line] [entry] := by
    simpa using holds_line hbuilt.wf hline holds_empty
  refine ⟨_, ⟨by rw [hcontents]; exact hholds,
    hbuilt.check hhex zeroHash_hex (s := {}) (.inl rfl) le_rfl⟩, rfl, fun data hdata => ?_⟩
  rw [hcontents, List.mem_singleton] at hdata
  subst hdata
  exact (Recorded.empty : Recorded F H []).append ⟨zeroHash, hash, 0, entry, hbuilt, hhex, hline⟩

/-! ## A record of 1 MiB -/

def longConfig : Config :=
  { sampleConfig with maxBytes := 64 * 1024 * 1024, maxRecordBytes := 16 * 1024 * 1024 }

/-- A payload of one string. -/
def textInput (text : PyStr) : RecordInput SampleFloat where
  source := py "daemon"
  subject := py "started"
  payload := [(py "data", .str text)]
  wf := ⟨List.nodup_singleton _, trivial, trivial⟩

/-- `"a" * (1024 * 1024)`. -/
def longText : PyStr := List.replicate (1024 * 1024) 97

theorem quote_length (s : PyStr) :
    s.length + 2 ≤ (quote s).length ∧ (quote s).length ≤ 6 * s.length + 2 := by
  have hchar : ∀ c, 1 ≤ (escapeChar c).length ∧ (escapeChar c).length ≤ 6 := by
    intro c
    unfold escapeChar
    repeat' split
    all_goals simp
  have hflat : ∀ s : PyStr, s.length ≤ (s.flatMap escapeChar).length ∧
      (s.flatMap escapeChar).length ≤ 6 * s.length := by
    intro s
    induction s with
    | nil => simp
    | cons c s ih =>
        have := hchar c
        simp only [List.flatMap_cons, List.length_append, List.length_cons]
        omega
  have := hflat s
  simp only [quote, List.length_cons, List.length_append, List.length_nil]
  omega

/-- The text of a record with one string in its payload. -/
theorem textInput_length (text hash : PyStr) :
    text.length < ((Json.obj (entryFields sampleStamp zeroHash 0 (textInput text) ++
      [(py "record_hash", .str hash)])).print .compact 0).length ∧
    ((Json.obj (entryFields sampleStamp zeroHash 0 (textInput text) ++
      [(py "record_hash", .str hash)])).print .compact 0).length ≤
        6 * text.length + 6 * hash.length + 1000 := by
  have htext := quote_length text
  have hhash := quote_length hash
  have hfixed : (quote (py "schema_version")).length + (quote schemaVersion).length +
      (quote (py "record_id")).length + (quote sampleStamp.recordId).length +
      (quote (py "sequence")).length + (intText (0 + 1)).length + (quote (py "timestamp")).length +
      (floatText sampleStamp.timestamp).length + (quote (py "timestamp_utc")).length +
      (quote sampleStamp.timestampUtc).length + (quote (py "source")).length +
      (quote (py "daemon")).length + (quote (py "subject")).length +
      (quote (py "started")).length + (quote (py "payload")).length + (quote (py "data")).length +
      (quote (py "prev_hash")).length + (quote zeroHash).length +
      (quote (py "record_hash")).length ≤ 900 := by decide +kernel
  simp only [entryFields, textInput, List.cons_append, List.nil_append, Json.print, printMembers,
    safeValue, safeMembers, Layout.compact, List.length_append, List.length_cons, List.length_nil]
  omega

theorem textInput_strings {text : PyStr} (htext : ∀ c ∈ text, c < 128) :
    ∀ s ∈ (Json.obj (entryFields sampleStamp zeroHash 0 (textInput text))).strings,
      ∀ c ∈ s, c < 128 := by
  simp only [entryFields, textInput, Json.strings, stringsMembers, safeValue, safeMembers,
    List.forall_mem_cons, List.cons_append, List.nil_append, List.append_nil]
  repeat' apply And.intro
  all_goals first | exact htext | decide +kernel

/-- A record of ASCII strings is hashed. -/
theorem recordHash_ascii {fields : Mapping F} (hcurrent : isCurrent fields = true)
    (henc : (Json.obj fields).encodable false = true)
    (h : ∀ s ∈ (Json.obj fields).strings, ∀ c ∈ s, c < 128) :
    ∃ hash, recordHash H fields = .ok hash := by
  have hcanon := encodeUtf8_print_ascii .compact (Json.obj fields).sortKeys 0
    fun s hs => h s ((mem_strings_sortKeys _ s).1 hs)
  simp [recordHash, hashInput, hcurrent, canonicalJson, dumpsSorted, dumps,
    (encodable_sortKeys false _).2 henc, encode, hcanon]

/-- A record of ASCII strings is one octet a character. -/
theorem encodeLine_ascii {entry : Mapping F} (henc : (Json.obj entry).encodable false = true)
    (h : ∀ s ∈ (Json.obj entry).strings, ∀ c ∈ s, c < 128) :
    encodeLine entry = .ok (((Json.obj entry).print .compact 0 ++ [10]).map UInt8.ofNat) := by
  have hline : encodeUtf8 ((Json.obj entry).print .compact 0 ++ [10]) =
      some (((Json.obj entry).print .compact 0 ++ [10]).map UInt8.ofNat) := by
    refine encodeUtf8_ascii fun c hc => ?_
    rcases List.mem_append.1 hc with hc | hc
    · rcases print_chars_or .compact _ 0 c hc with hlt | ⟨s, hs, hc⟩
      · exact hlt
      · exact h s hs c hc
    · rw [List.mem_singleton] at hc
      omega
  simp only [encodeLine, dumps, henc, if_true, encode, hline]

theorem hex_ascii {hash : PyStr} (h : validHexHash hash = true) :
    hash.length = 64 ∧ ∀ c ∈ hash, c < 128 := by
  simp only [validHexHash, Bool.and_eq_true, beq_iff_eq, List.all_eq_true] at h
  refine ⟨h.1, fun c hc => ?_⟩
  have := h.2 c hc
  simp only [isHexDigit, isDigit, Bool.or_eq_true, Bool.and_eq_true, decide_eq_true_eq] at this
  omega

/-- A record with an ASCII string in its payload is built and encoded. -/
theorem textInput_planned {text : PyStr} (htext : ∀ c ∈ text, c < 128) :
    ∃ (entry : Mapping SampleFloat) (line : Bytes),
      buildEntry sha256Digest sampleStamp zeroHash 0 (textInput text) = .ok entry ∧
      encodeLine entry = .ok line ∧ text.length + 1 < line.length ∧
      line.length ≤ 6 * text.length + 1400 := by
  have hstrings := textInput_strings htext
  obtain ⟨hash, hhash⟩ := recordHash_ascii (H := sha256Digest) rfl rfl hstrings
  obtain ⟨hlen, hascii⟩ := hex_ascii (recordHash_hex hhash)
  have hentry : buildEntry sha256Digest sampleStamp zeroHash 0 (textInput text) =
      .ok (entryFields sampleStamp zeroHash 0 (textInput text) ++
        [(py "record_hash", .str hash)]) := by
    simp only [buildEntry, hhash]
  have hsealed : ∀ s ∈ (Json.obj (entryFields sampleStamp zeroHash 0 (textInput text) ++
      [(py "record_hash", Json.str hash)])).strings, ∀ c ∈ s, c < 128 := by
    intro s hs
    have hsplit : (Json.obj (entryFields sampleStamp zeroHash 0 (textInput text) ++
        [(py "record_hash", Json.str hash)])).strings =
          (Json.obj (entryFields sampleStamp zeroHash 0 (textInput text))).strings ++
            [py "record_hash", hash] := by simp [Json.strings, stringsMembers_eq]
    rw [hsplit, List.mem_append] at hs
    rcases hs with hs | hs
    · exact hstrings s hs
    · simp only [List.mem_cons, List.not_mem_nil, or_false] at hs
      rcases hs with rfl | rfl
      · decide
      · exact hascii
  have hline := encodeLine_ascii rfl hsealed
  obtain ⟨hlo, hhi⟩ := textInput_length text hash
  refine ⟨_, _, hentry, hline, ?_, ?_⟩
  · rw [List.length_map, List.length_append, List.length_singleton]
    omega
  · rw [List.length_map, List.length_append, List.length_singleton]
    omega

/-- A first record of a little over 1 MiB is written and the log is valid, but no instance can read
    its tail: every later record raises. -/
theorem tail_unreadable_after_long_record :
    ∃ hash lg₁ dir₁ r,
      longConfig.valid = true ∧
      record sha256Digest { config := longConfig } {} (.ok sampleStamp) (textInput longText) =
        (.ok hash, lg₁, dir₁) ∧
      verify SampleFloat sha256Digest longConfig.fileName dir₁ false none = .ok r ∧
      r.valid = true ∧ r.recordCount = 1 ∧
      (∀ data ∈ contents longConfig.fileName dir₁, Recorded SampleFloat sha256Digest data) ∧
      tailState SampleFloat lg₁ dir₁ ≠ .ok (r.lastHash, r.lastSequence) ∧
      ∀ (stamp : Except PyExc (Stamp SampleFloat)) (input : RecordInput SampleFloat),
        ∃ x, (record sha256Digest lg₁ dir₁ stamp input).1 = .error x := by
  have hascii : ∀ c ∈ longText, c < 128 := by
    intro c hc
    rw [List.eq_of_mem_replicate hc]
    decide
  have hlen : longText.length = tailWindow := List.length_replicate
  obtain ⟨entry, line, hentry, hline, hlo, hhi⟩ := textInput_planned hascii
  have hwindow : tailWindow = 1048576 := rfl
  have hmax : longConfig.maxRecordBytes = 16777216 := rfl
  obtain ⟨hash, hbuilt, hhex, hrecord⟩ := record_first (c := longConfig) rfl hentry hline (by omega)
  obtain ⟨s, hvalid, hcount, hwritten⟩ := @validLog_first _ _ _ longConfig.fileName _ _ _
    hbuilt hhex hline
  have hlong : ¬ NewestFits longConfig.fileName
      { files := Dict.empty.set longConfig.fileName line } := by
    intro hfits
    obtain ⟨body, hbody, hlines⟩ := recordLines_append
      (Recorded.empty : Recorded SampleFloat sha256Digest [])
      ⟨zeroHash, hash, 0, entry, hbuilt, hhex, hline⟩
    have hnewest : newestLine longConfig.fileName
        { files := Dict.empty.set longConfig.fileName line } = some body :=
      newestLine_active (Dict.get?_set_self ..) hlines
    have := hfits body hnewest
    rw [hbody] at hlo
    simp at hlo
    omega
  obtain ⟨x, hx⟩ : ∃ x, tailState SampleFloat
      { config := longConfig, lastHash := hash, lastSequence := 1 }
      { files := Dict.empty.set longConfig.fileName line } = .error x :=
    tailState_long hwritten hlong
  refine ⟨hash, _, _, _, by decide, hrecord, hvalid.verify false none, rfl, hcount, hwritten, ?_, ?_⟩
  · rw [hx]
    simp
  · intro stamp input
    simp only [record, prepare, refresh]
    cases validateRecordInput input with
    | error y => exact ⟨_, rfl⟩
    | ok _ =>
        simp only [hx]
        exact ⟨_, rfl⟩

/-- The condition at a record that fits. -/
theorem tail_fast_path_of_short_record :
    ∃ hash lg₁ dir₁ r,
      record sha256Digest { config := sampleConfig } {} (.ok sampleStamp) sampleInput =
        (.ok hash, lg₁, dir₁) ∧
      verify SampleFloat sha256Digest sampleConfig.fileName dir₁ false none = .ok r ∧
      r.recordCount = 1 ∧ NewestFits sampleConfig.fileName dir₁ ∧
      tailState SampleFloat lg₁ dir₁ = .ok (r.lastHash, r.lastSequence) := by
  obtain ⟨entry, line, hentry, hline, hlen, -⟩ := sample_planned sampleStamp (.inl rfl)
  have hmax : sampleConfig.maxRecordBytes = 1024 := rfl
  have hwindow : tailWindow = 1048576 := rfl
  obtain ⟨hash, hbuilt, hhex, hrecord⟩ := record_first (c := sampleConfig) rfl hentry hline (by omega)
  obtain ⟨s, hvalid, hcount, hwritten⟩ := @validLog_first _ _ _ sampleConfig.fileName _ _ _
    hbuilt hhex hline
  obtain ⟨body, hbody, hlines⟩ := recordLines_append
    (Recorded.empty : Recorded SampleFloat sha256Digest [])
    ⟨zeroHash, hash, 0, entry, hbuilt, hhex, hline⟩
  have hfits : NewestFits sampleConfig.fileName
      { files := Dict.empty.set sampleConfig.fileName line } := by
    intro line' hline'
    have hnewest : newestLine sampleConfig.fileName
        { files := Dict.empty.set sampleConfig.fileName line } = some body :=
      newestLine_active (Dict.get?_set_self ..) hlines
    rw [hnewest, Option.mem_def, Option.some.injEq] at hline'
    rw [hbody] at hlen
    simp only [List.length_append, List.length_singleton] at hlen
    rw [← hline']
    omega
  refine ⟨hash, _, _, _, hrecord, hvalid.verify false none, hcount, hfits, ?_⟩
  let lg : Logger := { config := sampleConfig, lastHash := hash, lastSequence := 1 }
  exact (@tail_fast_path_iff SampleFloat _ sha256Digest lg _ _ _ _
    (hvalid.verify false none) rfl hwritten).1.2 hfits

end Elyra.Audit
