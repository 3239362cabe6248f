import Elyra.Audit.Tail

set_option autoImplicit false
set_option linter.unusedSectionVars false

/-! # The chain over whole runs

Any number of loggers on one directory, in any interleaving of `record`, `rotate` and `__init__`.
Each call runs under the lock, so a run is a list of calls. The system carries two things the code
does not: the history of every record written, and the number of rotations. The invariant (`Intact`)
says that the retained segments hold the end of the history, that the history is chained, and that
the next append can see where it ends. -/

namespace Elyra.Audit

open Elyra.Python

variable {F : Type} [FloatNum F] {H : HexDigest}

/-! ## Runs -/

structure System (F : Type) where
  dir : Dir := {}
  loggers : List Logger := []
  /-- Every record a successful `record` has written, oldest first. -/
  history : List (Mapping F) := []
  rotations : Nat := 0

inductive Call (F : Type) where
  | reopen (c : Config) (env : OpenEnv F)
  | record (i : Nat) (stamp : Except PyExc (Stamp F)) (input : RecordInput F)
  | rotate (i : Nat)

/-- The instances share the file name, keep at least one rotated segment and write no record longer
    than the tail window. -/
def Call.Admissible (fileName : PyStr) : Call F → Prop
  | .reopen c _ => c.fileName = fileName ∧ 1 ≤ c.backupCount ∧ c.maxRecordBytes ≤ tailWindow
  | _ => True

/-- The record a call of `record` writes, if it succeeds. -/
def newRecords (H : HexDigest) (lg : Logger) (dir : Dir) (stamp : Except PyExc (Stamp F))
    (input : RecordInput F) : List (Mapping F) :=
  match (prepare H lg dir stamp input).2 with
  | .error _ => []
  | .ok plan => [plan.entry]

/-- The rotations a call of `record` makes: one or none. -/
def newRotations (H : HexDigest) (lg : Logger) (dir : Dir) (stamp : Except PyExc (Stamp F))
    (input : RecordInput F) : Nat :=
  match (prepare H lg dir stamp input).2 with
  | .error _ => 0
  | .ok plan => if needsRotation lg.config dir plan.line then 1 else 0

def System.step (H : HexDigest) (sys : System F) : Call F → System F
  | .reopen c env =>
      match openLogger H c env sys.dir with
      | (.error _, dir) => { sys with dir := dir }
      | (.ok lg, dir) => { sys with dir := dir, loggers := sys.loggers ++ [lg] }
  | .record i stamp input =>
      match sys.loggers[i]? with
      | none => sys
      | some lg =>
          { dir := (record H lg sys.dir stamp input).2.2
            loggers := sys.loggers.set i (record H lg sys.dir stamp input).2.1
            history := sys.history ++ newRecords H lg sys.dir stamp input
            rotations := sys.rotations + newRotations H lg sys.dir stamp input }
  | .rotate i =>
      match sys.loggers[i]? with
      | none => sys
      | some lg =>
          { sys with
            dir := (rotate lg sys.dir).2
            rotations := sys.rotations + if (rotate lg sys.dir).1.isSome then 1 else 0 }

attribute [grind =] newRecords newRotations System.step

def System.run (H : HexDigest) (sys : System F) (calls : List (Call F)) : System F :=
  calls.foldl (System.step H) sys

/-! ## The invariant -/

/-- Each record points to the one before it and counts one further. -/
inductive Chained : PyStr → Int → List (Mapping F) → Prop
  | nil (prev : PyStr) (n : Int) : Chained prev n []
  | cons {prev hash : PyStr} {n : Int} {entry : Mapping F} {rest : List (Mapping F)}
      (hprev : lookup (py "prev_hash") entry = some (.str prev))
      (hseq : lookup (py "sequence") entry = some (.int (n + 1)))
      (hhash : lookup (py "record_hash") entry = some (.str hash))
      (hrest : Chained hash (n + 1) rest) : Chained prev n (entry :: rest)

/-- The hash and the sequence number of the newest record. -/
structure Newest (history : List (Mapping F)) (hash : PyStr) (sequence : Int) : Prop where
  start : history = [] → hash = zeroHash ∧ sequence = 0
  last : ∀ entry ∈ history.getLast?, lookup (py "record_hash") entry = some (.str hash) ∧
    lookup (py "sequence") entry = some (.int sequence)

theorem Newest.numbered {gone kept : List (Mapping F)} {hash : PyStr} {n : Int}
    (h : Newest (gone ++ kept) hash n) : Numbered kept := by
  intro entry hentry
  have hlast : entry ∈ (gone ++ kept).getLast? := by
    rw [List.getLast?_append]
    simpa using Or.inl hentry
  exact ⟨n, by simp [(h.last entry hlast).2, sequenceNumber]⟩

theorem chained_append {prev hash : PyStr} {n : Int} {a : List (Mapping F)} {entry : Mapping F}
    {lastHash : PyStr} {lastSequence : Int} (h : Chained prev n a)
    (hstart : a = [] → lastHash = prev ∧ lastSequence = n)
    (hlast : ∀ e ∈ a.getLast?, lookup (py "record_hash") e = some (.str lastHash) ∧
      lookup (py "sequence") e = some (.int lastSequence))
    (hbuilt : Built H lastHash lastSequence hash entry) : Chained prev n (a ++ [entry]) := by
  induction h with
  | nil prev n =>
      obtain ⟨rfl, rfl⟩ := hstart rfl
      exact .cons hbuilt.prev_eq hbuilt.sequence_eq hbuilt.hash_eq (.nil ..)
  | @cons prev hash' n e a hprev hseq hhash' hrest ih =>
      refine .cons hprev hseq hhash' (ih ?_ ?_)
      · rintro rfl
        obtain ⟨h1, h2⟩ := hlast e (by simp)
        rw [hhash'] at h1
        rw [hseq] at h2
        simp only [Option.some.injEq, Json.str.injEq, Json.int.injEq] at h1 h2
        exact ⟨h1.symm, h2.symm⟩
      · intro e' he'
        refine hlast e' ?_
        cases a with
        | nil => exact absurd he' (by simp)
        | cons x a => simpa [List.getLast?_cons_cons] using he'

/-- A segment that only appends have written. -/
structure Appended (data : Bytes) : Prop where
  seen : TailSeen data
  filled : data ≠ [] → recordLines data ≠ []

theorem appended_nil : Appended [] := ⟨tailSeen_nil, fun h => absurd rfl h⟩

structure Intact (H : HexDigest) (fileName : PyStr) (sys : System F) : Prop where
  configs : ∀ lg ∈ sys.loggers, lg.config.fileName = fileName ∧ 1 ≤ lg.config.backupCount ∧
    lg.config.maxRecordBytes ≤ tailWindow
  numbers : nextRotationIndex fileName sys.dir ≤ sys.rotations + 1
  appended : ∀ data ∈ contents fileName sys.dir, Appended data
  chained : Chained zeroHash 0 sys.history
  log : ∃ gone kept s, sys.history = gone ++ kept ∧ (sys.history ≠ [] → kept ≠ []) ∧
    ValidLog H fileName sys.dir kept s ∧ Newest sys.history s.lastHash s.lastSequence

/-! ## What the calls do to the directory -/

section Numbers

variable {c : Config} {dir : Dir}

/-- A rotation takes one number; writing the active file takes none. -/
theorem nextRotationIndex_append {line : Bytes}
    (hindex : needsRotation c dir line = true → nextRotationIndex c.fileName dir ≤ 999999) :
    nextRotationIndex c.fileName (applyAll dir (appendEffects c dir line)) ≤
      nextRotationIndex c.fileName dir + if needsRotation c dir line then 1 else 0 := by
  unfold appendEffects
  rw [applyAll_append]
  split
  · next hneeds =>
    obtain ⟨data, hactive, hdata⟩ := needsRotation_active hneeds
    obtain ⟨j, rotated, -, hshape, -, hnumbers⟩ := rotate_effects hactive hdata (hindex hneeds)
    refine nextRotationIndex_le.2 ?_
    rw [(hshape.write line).rotated]
    exact hnumbers
  · have hsame := ((shape_self c dir).write line).rotated
    show nextRotationIndex c.fileName (applyAll dir [.create c.fileName, .append c.fileName line]) ≤ _
    unfold nextRotationIndex
    rw [hsame]

end Numbers

/-- A valid log has nothing to repair. -/
theorem repairActive_valid {c : Config} {artifact : PyStr} {dir : Dir} {records : List (Mapping F)}
    (h : Holds (contents c.fileName dir) records) : repairActive c artifact dir = .ok (none, dir) := by
  unfold repairActive
  split
  · rfl
  · next data hactive =>
    have hcomplete := h.complete data (by rw [active_last hactive]; simp)
    rw [if_pos hcomplete]

/-- Opening a valid log changes nothing and takes over its end. -/
theorem openLogger_valid {c : Config} {env : OpenEnv F} {dir : Dir} {records : List (Mapping F)}
    {s : Scan} (h : ValidLog H c.fileName dir records s) (hc : c.valid = true) :
    openLogger H c env dir =
      (.ok { config := c, lastHash := s.lastHash, lastSequence := s.lastSequence }, dir) := by
  have hrepair : (if c.repairTrailingPartial then repairActive c env.artifact dir
      else .ok (none, dir)) = .ok (none, dir) := by
    split
    · exact repairActive_valid h.holds
    · rfl
  unfold openLogger
  rw [if_neg (by simp [hc]), hrepair]
  simp only [h.verify, Option.isSome_none]
  rfl

/-- A line at the end of an appended segment. -/
theorem Appended.line {last line : Bytes} {entry : Mapping F}
    (hcomplete : last = [] ∨ endsWithLf last = true) (hwf : (Json.obj entry).WF)
    (hline : encodeLine entry = .ok line) (hlen : line.length ≤ tailWindow) :
    Appended (last ++ line) := by
  obtain ⟨body, rfl, hends, hblank, -⟩ := decodeLine_encodeLine hwf hline
  refine ⟨tailSeen_line hcomplete hends hblank hlen, fun _ => ?_⟩
  rw [recordLines, splitlines_append hcomplete, splitlines_line hends]
  simp [hblank]

/-- What holds of every segment, and of a segment once the line is at its end, holds of the segments
    after an append. -/
theorem AppendState.forall {P : Bytes → Prop} {before after : List Bytes} {limit : Nat}
    {line : Bytes} {active : Option Bytes} (h : AppendState before limit line after active)
    (hbefore : ∀ data ∈ before, P data) (hnil : P []) (hline : ∀ last, P last → P (last ++ line)) :
    ∀ data ∈ after, P data := by
  cases h with
  | untouched j hj hactive => exact fun data hdata => hbefore data (List.mem_of_mem_drop hdata)
  | extended j hj init last line hlast =>
      have hinit : ∀ data ∈ init, data ∈ before := by
        intro data hdata
        refine List.mem_of_mem_drop (?_ : data ∈ before.drop j)
        rcases hlast with hlast | ⟨hlast, -⟩ <;> simp [hlast, hdata]
      have hlast' : P last := by
        rcases hlast with hlast | ⟨-, rfl⟩
        · exact hbefore last (List.mem_of_mem_drop (i := j) (by simp [hlast]))
        · exact hnil
      intro data hdata
      rcases List.mem_append.1 hdata with hdata | hdata
      · exact hbefore data (hinit data hdata)
      · rw [List.mem_singleton] at hdata
        exact hdata ▸ hline last hlast'

/-- The segments after an append. -/
theorem AppendState.appended {before after : List Bytes} {limit : Nat} {line : Bytes}
    {active : Option Bytes} (h : AppendState before limit line after active) {entry : Mapping F}
    (hbefore : ∀ data ∈ before, Appended data)
    (hcomplete : ∀ data ∈ before, data = [] ∨ endsWithLf data = true) (hwf : (Json.obj entry).WF)
    (hline : encodeLine entry = .ok line) (hlen : line.length ≤ tailWindow) :
    ∀ data ∈ after, Appended data := by
  have hboth : ∀ data ∈ after, Appended data ∧ (data = [] ∨ endsWithLf data = true) := by
    refine h.forall (fun data hdata => ⟨hbefore data hdata, hcomplete data hdata⟩)
      ⟨appended_nil, .inl rfl⟩ ?_
    rintro last ⟨-, hlast⟩
    obtain ⟨body, rfl, -⟩ := decodeLine_encodeLine hwf hline
    exact ⟨Appended.line hlast hwf hline hlen, .inr (endsWithLf_append (endsWithLf_append rfl))⟩
  exact fun data hdata => (hboth data hdata).1

/-- A segment that appends have written and that is not empty holds a record. -/
theorem Appended.holds {data : Bytes} {records : List (Mapping F)} (h : Appended data)
    (hdata : data ≠ []) (hholds : Holds [data] records) : records ≠ [] := by
  rintro rfl
  have hlines := decodeAll_lines hholds.decoded
  simp only [List.flatMap_cons, List.flatMap_nil, List.append_nil] at hlines
  rw [List.forall₂_nil_right_iff] at hlines
  exact h.filled hdata hlines

/-! ## What the calls do to the history -/

section Extend

variable {lg lg' : Logger} {dir : Dir} {history gone kept : List (Mapping F)} {s : Scan}

/-- A `record` that has read the end of the history extends it. -/
theorem record_extends (hvalid : ValidLog H lg.config.fileName dir kept s)
    (hchained : Chained zeroHash 0 history) (hnewest : Newest history s.lastHash s.lastSequence)
    (htail : tailState F lg dir = .ok (s.lastHash, s.lastSequence))
    {stamp : Except PyExc (Stamp F)} {input : RecordInput F} {plan : Plan F}
    (hprepare : prepare H lg dir stamp input = (lg', .ok plan))
    (hindex : needsRotation lg.config dir plan.line = true →
      nextRotationIndex lg.config.fileName dir ≤ 999999) :
    ∃ lost kept' t, kept = lost ++ kept' ∧
      ValidLog H lg.config.fileName (applyAll dir plan.effects) (kept' ++ [plan.entry]) t ∧
      Chained zeroHash 0 (history ++ [plan.entry]) ∧
      Newest (history ++ [plan.entry]) t.lastHash t.lastSequence ∧
      AppendState (contents lg.config.fileName dir) (retention lg.config dir plan.line) plan.line
        (contents lg.config.fileName (applyAll dir plan.effects))
        ((applyAll dir plan.effects).files.get? lg.config.fileName) := by
  obtain ⟨hash, n, _, htail', -, rfl, hplan⟩ := prepare_ok hprepare
  rw [htail] at htail'
  simp only [Except.ok.injEq, Prod.mk.injEq] at htail'
  obtain ⟨rfl, rfl⟩ := htail'
  have hstate := (full_appendEffects (c := lg.config) hindex).2
  have heffects := hplan.effects
  simp only at heffects
  rw [← heffects] at hstate
  obtain ⟨j, lost, kept', t, -, rfl, -, -, hvalid', hthash, htseq⟩ :=
    append_valid hplan hvalid rfl le_rfl hstate
  refine ⟨lost, kept', t, rfl, hvalid', ?_, ?_, hstate⟩
  · exact chained_append hchained hnewest.start hnewest.last hplan.built
  · refine ⟨fun hnil => absurd hnil (by simp), fun entry hentry => ?_⟩
    simp only [List.getLast?_append, List.getLast?_singleton, Option.some_or, Option.mem_def,
      Option.some.injEq] at hentry
    subst hentry
    rw [hthash, htseq]
    exact ⟨hplan.built.hash_eq, hplan.built.sequence_eq⟩

/-- A rotation that keeps a segment keeps the newest record. -/
theorem rotate_keeps {data : Bytes} (hactive : dir.files.get? lg.config.fileName = some data)
    (hdata : data ≠ []) (hfilled : ∀ records : List (Mapping F), Holds [data] records → records ≠ [])
    (hbackup : 1 ≤ lg.config.backupCount)
    (hindex : nextRotationIndex lg.config.fileName dir ≤ 999999)
    (hvalid : ValidLog H lg.config.fileName dir kept s)
    (hnewest : Newest (gone ++ kept) s.lastHash s.lastSequence) :
    ∃ j lost kept' t, kept = lost ++ kept' ∧ kept' ≠ [] ∧
      contents lg.config.fileName (applyAll dir (rotateEffects lg.config dir)) =
        (contents lg.config.fileName dir).drop j ∧
      (∀ segment ∈ rotatedOf lg.config.fileName (applyAll dir (rotateEffects lg.config dir)),
        segment.1 ≤ nextRotationIndex lg.config.fileName dir) ∧
      ValidLog H lg.config.fileName (applyAll dir (rotateEffects lg.config dir)) kept' t ∧
      Newest (gone ++ kept) t.lastHash t.lastSequence := by
  obtain ⟨j, rotated, hj, hshape, hdrop, hmax⟩ := rotate_effects hactive hdata hindex
  obtain ⟨lost, kept', rfl, -, hkept⟩ := hvalid.holds.drop j
  have hcontents := hshape.contents_eq.trans (by rw [hdrop, Option.toList_none, List.append_nil])
  -- the active file stays, and with it the newest record
  have hlast : kept' ≠ [] := by
    have hlength : (contents lg.config.fileName dir).length =
        (rotatedOf lg.config.fileName dir).length + 1 := by simp [active_last hactive]
    have hsplit := active_last hactive
    have hj' : j ≤ ((rotatedOf lg.config.fileName dir).map (·.2.2)).length := by
      simp only [List.length_map]
      omega
    rw [hsplit, List.drop_append_of_le_length hj'] at hkept
    obtain ⟨r₁, r₂, -, hr₂, rfl⟩ := holds_append.1 hkept
    simp [hfilled r₂ hr₂]
  obtain ⟨t, ht, hbehind, hsame⟩ := checkAll_kept hvalid.checked
  obtain ⟨hthash, -⟩ := hsame hlast
  -- the last record carries its number, so both scans end with it
  have hseq : t.lastSequence = s.lastSequence := by
    obtain ⟨init, entry, rfl⟩ : ∃ init entry, kept' = init ++ [entry] := by
      rcases List.eq_nil_or_concat kept' with hnil | ⟨init, entry, hc⟩
      · exact absurd hnil hlast
      · exact ⟨init, entry, by simpa using hc⟩
    obtain ⟨-, -, t₁, -, hnext⟩ := checkAll_last ht
    have hentry := hnewest.last entry (by simp)
    exact nextSequence_number hnext (by simp [hentry.2, sequenceNumber])
  refine ⟨j, lost, kept', t, rfl, hlast, hcontents, ?_, ⟨by rw [hcontents]; exact hkept, ht⟩, ?_⟩
  · rw [hshape.rotated]
    exact hmax
  · rw [hthash, hseq]
    exact hnewest

/-- A rotation either finds nothing to do or moves a non-empty active file. -/
theorem rotate_cases (lg : Logger) (dir : Dir) :
    rotate lg dir = (none, dir) ∨ ∃ data name, dir.files.get? lg.config.fileName = some data ∧
      data ≠ [] ∧ rotate lg dir = (some name, applyAll dir (rotateEffects lg.config dir)) := by
  by_cases hempty : (dir.files.get? lg.config.fileName).getD [] = []
  · left
    simp [rotate, rotatedTo, rotateEffects, hempty, applyAll]
  · right
    cases hactive : dir.files.get? lg.config.fileName with
    | none => exact absurd (by simp [hactive]) hempty
    | some data =>
        rw [hactive, Option.getD_some] at hempty
        refine ⟨data, rotatedName lg.config.fileName (nextRotationIndex lg.config.fileName dir), rfl,
          hempty, ?_⟩
        simp [rotate, rotatedTo, hactive, hempty]

end Extend

/-! ## One call -/

section Step

variable {fileName : PyStr} {sys : System F}

theorem Intact.reopen (h : Intact H fileName sys) {c : Config} (env : OpenEnv F)
    (hc : (Call.reopen c env).Admissible fileName) :
    Intact H fileName (sys.step H (.reopen c env)) := by
  obtain ⟨rfl, hbackup, hmax⟩ := hc
  obtain ⟨gone, kept, s, hhistory, hne, hvalid, hnewest⟩ := h.log
  cases hc : c.valid with
  | false =>
      have hopen : openLogger H c env sys.dir = (.error (.python .valueError), sys.dir) := by
        unfold openLogger
        rw [if_pos hc]
      simp only [System.step, hopen]
      exact h
  | true =>
      simp only [System.step, openLogger_valid hvalid hc]
      refine ⟨fun lg hlg => ?_, h.numbers, h.appended, h.chained, h.log⟩
      rcases List.mem_append.1 hlg with hlg | hlg
      · exact h.configs lg hlg
      · rw [List.mem_singleton] at hlg
        subst hlg
        exact ⟨rfl, hbackup, hmax⟩

theorem Intact.reached (h : Intact H fileName sys) :
    TailReached (contents fileName sys.dir).reverse :=
  tailReached_of_seen fun data hdata => (h.appended data (List.mem_reverse.1 hdata)).seen

/-- The next append reads the end of the history. -/
theorem Intact.tail (h : Intact H fileName sys) {lg : Logger} (hlg : lg ∈ sys.loggers)
    {kept : List (Mapping F)} {s : Scan} (hvalid : ValidLog H fileName sys.dir kept s)
    (hnewest : Newest sys.history s.lastHash s.lastSequence)
    (hkept : ∃ gone, sys.history = gone ++ kept) :
    tailState F lg sys.dir = .ok (s.lastHash, s.lastSequence) := by
  have hname := (h.configs lg hlg).1
  subst hname
  obtain ⟨gone, hgone⟩ := hkept
  rw [hgone] at hnewest
  have hnumbered := hnewest.numbered
  obtain ⟨n, htail, -, hn, -⟩ :=
    tailState_valid hvalid h.reached (.inr hnumbered)
  rw [htail, hn hnumbered]

/-- What a successful `record` does to an intact system. -/
theorem Intact.written (h : Intact H fileName sys) {lg lg' : Logger} (hlg : lg ∈ sys.loggers)
    {stamp : Except PyExc (Stamp F)} {input : RecordInput F} {plan : Plan F}
    (hprepare : prepare H lg sys.dir stamp input = (lg', .ok plan))
    (hindex : needsRotation lg.config sys.dir plan.line = true →
      nextRotationIndex fileName sys.dir ≤ 999999) :
    ∃ lost kept t, LogRecords (segmentsFor fileName sys.dir) (lost ++ kept) ∧
      (∃ gone, sys.history = gone ++ (lost ++ kept)) ∧
      ValidLog H fileName (applyAll sys.dir plan.effects) (kept ++ [plan.entry]) t ∧
      Chained zeroHash 0 (sys.history ++ [plan.entry]) ∧
      Newest (sys.history ++ [plan.entry]) t.lastHash t.lastSequence ∧
      (∀ data ∈ contents fileName (applyAll sys.dir plan.effects), Appended data) := by
  obtain ⟨rfl, -, hmax⟩ := h.configs lg hlg
  obtain ⟨gone, kept, s, hhistory, -, hvalid, hnewest⟩ := h.log
  have htail := h.tail hlg hvalid hnewest ⟨gone, hhistory⟩
  obtain ⟨lost, kept', t, rfl, hvalid', hchained, hnewest', hstate⟩ :=
    record_extends hvalid h.chained hnewest htail hprepare hindex
  refine ⟨lost, kept', t, logRecords_iff.2 hvalid.holds, ⟨gone, hhistory⟩, hvalid', hchained,
    hnewest', ?_⟩
  obtain ⟨_, _, _, -, -, rfl, hplan⟩ := prepare_ok hprepare
  refine hstate.appended h.appended hvalid.holds.complete hplan.built.wf hplan.encoded ?_
  have hbound := hplan.bounded
  simp only at hbound
  omega

theorem Intact.record (h : Intact H fileName sys) (i : Nat) (stamp : Except PyExc (Stamp F))
    (input : RecordInput F) (hrot : (sys.step H (.record i stamp input)).rotations ≤ 999999) :
    Intact H fileName (sys.step H (.record i stamp input)) := by
  cases hi : sys.loggers[i]? with
  | none =>
      simp only [System.step, hi]
      exact h
  | some lg =>
      have hlg : lg ∈ sys.loggers := List.mem_of_getElem? hi
      have hconfigs : ∀ lg' : Logger, lg'.config = lg.config → ∀ x ∈ sys.loggers.set i lg',
          x.config.fileName = fileName ∧ 1 ≤ x.config.backupCount ∧
            x.config.maxRecordBytes ≤ tailWindow := by
        intro lg' hconfig x hx
        rcases List.mem_or_eq_of_mem_set hx with hx | rfl
        · exact h.configs x hx
        · rw [hconfig]
          exact h.configs lg hlg
      have hconfig : (prepare H lg sys.dir stamp input).1.config = lg.config := prepare_config
      simp only [System.step, hi, newRecords, newRotations, Elyra.Audit.record] at hrot ⊢
      cases hprepare : prepare H lg sys.dir stamp input with
      | mk lg' result =>
          rw [hprepare] at hconfig
          cases result with
          | error x =>
              simp only [List.append_nil, Nat.add_zero]
              exact ⟨hconfigs lg' hconfig, h.numbers, h.appended, h.chained, h.log⟩
          | ok plan =>
              simp only [hprepare] at hrot ⊢
              have hindex : needsRotation lg.config sys.dir plan.line = true →
                  nextRotationIndex fileName sys.dir ≤ 999999 := by
                intro hneeds
                have := h.numbers
                simp only [hneeds, if_true] at hrot
                omega
              obtain ⟨lost, kept, t, -, ⟨gone, hgone⟩, hvalid, hchained, hnewest, happended⟩ :=
                h.written hlg hprepare hindex
              obtain ⟨_, _, _, -, -, -, hplan⟩ := prepare_ok hprepare
              have hname := (h.configs lg hlg).1
              subst hname
              refine ⟨hconfigs _ hconfig, ?_, happended, hchained, ?_⟩
              · have hnext := nextRotationIndex_append hindex
                rw [← hconfig, ← hplan.effects, hconfig] at hnext
                have := h.numbers
                simp only
                omega
              · exact ⟨gone ++ lost, kept ++ [plan.entry], t, by simp [hgone], by simp, hvalid,
                  hnewest⟩

theorem Intact.rotate (h : Intact H fileName sys) (i : Nat)
    (hrot : (sys.step H (.rotate i)).rotations ≤ 999999) :
    Intact H fileName (sys.step H (.rotate i)) := by
  cases hi : sys.loggers[i]? with
  | none =>
      simp only [System.step, hi]
      exact h
  | some lg =>
      obtain ⟨rfl, hbackup, -⟩ := h.configs lg (List.mem_of_getElem? hi)
      simp only [System.step, hi] at hrot ⊢
      rcases rotate_cases lg sys.dir with hidle | ⟨data, name, hactive, hdata, hdone⟩
      · simp only [hidle]
        exact h
      · simp only [hdone, Option.isSome_some, if_true] at hrot ⊢
        have hnumbers := h.numbers
        obtain ⟨gone, kept, s, hhistory, hne, hvalid, hnewest⟩ := h.log
        have happended := h.appended data (by rw [active_last hactive]; simp)
        rw [hhistory] at hnewest
        obtain ⟨j, lost, kept', t, rfl, hlast, hcontents, hmax, hvalid', hnewest'⟩ :=
          rotate_keeps hactive hdata (fun _ => happended.holds hdata) hbackup
            (hnumbers.trans hrot) hvalid hnewest
        refine ⟨h.configs, ?_, ?_, h.chained, gone ++ lost, kept', t, by simp [hhistory],
          fun _ => hlast, hvalid', by rw [hhistory]; exact hnewest'⟩
        · exact nextRotationIndex_le.2 fun x hx => (hmax x hx).trans hnumbers
        · rw [hcontents]
          exact fun x hx => h.appended x (List.mem_of_mem_drop hx)

/-- **Every call keeps the invariant.** -/
theorem Intact.step (h : Intact H fileName sys) (call : Call F) (hcall : call.Admissible fileName)
    (hrot : (sys.step H call).rotations ≤ 999999) : Intact H fileName (sys.step H call) := by
  cases call with
  | reopen c env => exact h.reopen env hcall
  | record i stamp input => exact h.record i stamp input hrot
  | rotate i => exact h.rotate i hrot

end Step

/-! ## Whole runs -/

theorem contents_start (fileName : PyStr) : contents fileName {} = [] := rfl

theorem intact_start (H : HexDigest) (fileName : PyStr) : Intact H fileName ({} : System F) where
  configs := by simp
  numbers := le_rfl
  appended := fun data hdata => absurd hdata (by rw [contents_start]; exact List.not_mem_nil)
  chained := .nil ..
  log := ⟨[], [], {}, rfl, fun h => absurd rfl h, ⟨by rw [contents_start]; exact holds_nil, rfl⟩,
    ⟨fun _ => ⟨rfl, rfl⟩, by simp⟩⟩

theorem rotations_mono (H : HexDigest) (sys : System F) (calls : List (Call F)) :
    sys.rotations ≤ (sys.run H calls).rotations := by
  induction calls generalizing sys with
  | nil => exact le_rfl
  | cons call calls ih =>
      refine le_trans ?_ (ih (sys.step H call))
      cases call with
      | reopen c env =>
          simp only [System.step]
          split <;> exact le_rfl
      | record i stamp input =>
          simp only [System.step]
          split
          · exact le_rfl
          · exact Nat.le_add_right ..
      | rotate i =>
          simp only [System.step]
          split
          · exact le_rfl
          · exact Nat.le_add_right ..

/-- A call makes at most one rotation. -/
theorem rotations_step_le (H : HexDigest) (sys : System F) (call : Call F) :
    (sys.step H call).rotations ≤ sys.rotations + 1 := by
  cases call with
  | reopen c env =>
      simp only [System.step]
      split <;> exact Nat.le_succ _
  | record i stamp input =>
      simp only [System.step]
      split
      · exact Nat.le_succ _
      · refine Nat.add_le_add_left ?_ _
        unfold newRotations
        split
        · exact Nat.zero_le _
        · split <;> omega
  | rotate i =>
      simp only [System.step]
      split
      · exact Nat.le_succ _
      · refine Nat.add_le_add_left ?_ _
        split <;> omega

theorem rotations_le (H : HexDigest) (sys : System F) (calls : List (Call F)) :
    (sys.run H calls).rotations ≤ sys.rotations + calls.length := by
  induction calls generalizing sys with
  | nil => exact le_rfl
  | cons call calls ih =>
      have hstep := rotations_step_le H sys call
      have hrest : ((sys.step H call).run H calls).rotations ≤ _ := ih (sys.step H call)
      show ((sys.step H call).run H calls).rotations ≤ _
      rw [List.length_cons]
      omega

theorem Intact.run {fileName : PyStr} {sys : System F} (h : Intact H fileName sys)
    (calls : List (Call F)) (hcalls : ∀ call ∈ calls, call.Admissible fileName)
    (hrot : (sys.run H calls).rotations ≤ 999999) : Intact H fileName (sys.run H calls) := by
  induction calls generalizing sys with
  | nil => exact h
  | cons call calls ih =>
      refine ih (h.step call (hcalls call (List.mem_cons_self ..)) ?_)
        (fun x hx => hcalls x (List.mem_cons_of_mem _ hx)) hrot
      exact (rotations_mono H (sys.step H call) calls).trans hrot

theorem record_ok {lg lg' : Logger} {dir dir' : Dir} {stamp : Except PyExc (Stamp F)}
    {input : RecordInput F} {hash : PyStr} (h : record H lg dir stamp input = (.ok hash, lg', dir')) :
    ∃ lg₁ plan, prepare H lg dir stamp input = (lg₁, .ok plan) ∧ hash = plan.hash ∧
      dir' = applyAll dir plan.effects := by
  unfold record at h
  split at h
  · exact absurd (congrArg Prod.fst h) (by simp)
  · next lg₁ plan hprepare =>
    simp only [Prod.mk.injEq, Except.ok.injEq] at h
    exact ⟨lg₁, plan, hprepare, h.1.symm, h.2.2.symm⟩

/-- **The audit chain over every run.** The history is chained from the zero hash; the segments hold
    the end of it, with the newest record; the verifier accepts them and reports that record; and a
    `record` that returns adds its record once, to the history and to the segments, at the end. -/
theorem audit_chain_of_every_run (H : HexDigest) (fileName : PyStr) (calls : List (Call F))
    (hcalls : ∀ call ∈ calls, call.Admissible fileName) {sys : System F}
    (hrun : System.run H {} calls = sys) (hrot : sys.rotations ≤ 999999) :
    Chained zeroHash 0 sys.history ∧
    (∃ gone kept, sys.history = gone ++ kept ∧ (sys.history ≠ [] → kept ≠ []) ∧
      LogRecords (segmentsFor fileName sys.dir) kept) ∧
    (∀ repaired artifact, ∃ r, verify F H fileName sys.dir repaired artifact = .ok r ∧
      r.valid = true ∧ Newest sys.history r.lastHash r.lastSequence) ∧
    (∀ i lg stamp input hash lg' dir', sys.loggers[i]? = some lg →
      record H lg sys.dir stamp input = (.ok hash, lg', dir') →
      (sys.step H (.record i stamp input)).rotations ≤ 999999 →
      ∃ entry lost kept, Carries input entry ∧
        lookup (py "record_hash") entry = some (.str hash) ∧
        (sys.step H (.record i stamp input)).history = sys.history ++ [entry] ∧
        LogRecords (segmentsFor fileName sys.dir) (lost ++ kept) ∧
        LogRecords (segmentsFor fileName dir') (kept ++ [entry])) := by
  subst hrun
  have h := (intact_start H fileName).run calls hcalls hrot
  obtain ⟨gone, kept, s, hhistory, hne, hvalid, hnewest⟩ := h.log
  refine ⟨h.chained, ⟨gone, kept, hhistory, hne, logRecords_iff.2 hvalid.holds⟩, ?_, ?_⟩
  · intro repaired artifact
    exact ⟨_, hvalid.verify repaired artifact, rfl, hnewest⟩
  · intro i lg stamp input hash lg' dir' hi hrecord hrot'
    have hlg := List.mem_of_getElem? hi
    obtain ⟨lg₁, plan, hprepare, rfl, rfl⟩ := record_ok hrecord
    obtain ⟨_, _, _, -, -, -, hplan⟩ := prepare_ok hprepare
    simp only [System.step, hi, newRecords, newRotations, hprepare] at hrot' ⊢
    obtain ⟨lost, kept', t, hbefore, -, hafter, -⟩ := h.written hlg hprepare (by
      intro hneeds
      have := h.numbers
      simp only [hneeds, if_true] at hrot'
      omega)
    exact ⟨plan.entry, lost, kept', hplan.carries, hplan.built.hash_eq, rfl, hbefore,
      logRecords_iff.2 hafter.holds⟩

/-! A run of two instances: a record by the first, a rotation and a record by the second. -/

def sampleConfig : Config where
  fileName := py "audit.jsonl"
  maxBytes := 512
  backupCount := 1
  maxRecordBytes := 1024
  quarantineCorrupt := false
  repairTrailingPartial := true

def sampleStamp : Stamp SampleFloat where
  timestamp := .zero
  timestampUtc := py "1970-01-01T00:00:00+00:00"
  recordId := py "00000000000040008000000000000000"

def sampleInput : RecordInput SampleFloat where
  source := py "daemon"
  subject := py "started"
  payload := []
  wf := ⟨by decide, trivial⟩

def sampleEnv : OpenEnv SampleFloat where
  artifact := py "trailing-partial-1.bin"
  chain := py "chain-1"
  stamp := .ok sampleStamp

def sampleCalls : List (Call SampleFloat) :=
  [.reopen sampleConfig sampleEnv, .reopen sampleConfig sampleEnv,
    .record 0 (.ok sampleStamp) sampleInput, .rotate 1, .record 1 (.ok sampleStamp) sampleInput]

theorem audit_chain_of_two_instances :
    (System.run sha256Digest {} sampleCalls).history.length = 2 ∧
    (System.run sha256Digest {} sampleCalls).rotations = 1 ∧
    Chained zeroHash 0 (System.run sha256Digest {} sampleCalls).history := by
  have hhistory : (System.run sha256Digest {} sampleCalls).history.length = 2 := by decide +kernel
  have hrotations : (System.run sha256Digest {} sampleCalls).rotations = 1 := by decide +kernel
  have hrot : (System.run sha256Digest {} sampleCalls).rotations ≤ 999999 := by
    rw [hrotations]
    norm_num
  have hcalls : ∀ call ∈ sampleCalls, call.Admissible (py "audit.jsonl") := by
    intro call hcall
    simp only [sampleCalls, List.mem_cons, List.not_mem_nil, or_false] at hcall
    rcases hcall with rfl | rfl | rfl | rfl | rfl
    · exact ⟨rfl, by decide, by decide +kernel⟩
    · exact ⟨rfl, by decide, by decide +kernel⟩
    · exact True.intro
    · exact True.intro
    · exact True.intro
  obtain ⟨hchained, -⟩ :=
    audit_chain_of_every_run sha256Digest (py "audit.jsonl") sampleCalls hcalls rfl hrot
  exact ⟨hhistory, hrotations, hchained⟩

end Elyra.Audit
