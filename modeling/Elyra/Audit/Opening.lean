import Elyra.Audit.Report

set_option autoImplicit false
set_option linter.unusedSectionVars false

/-! # Opening a damaged log

`AuditLogger.__init__` with the policy `quarantine`, on segments of any bytes: the repair of the
active file, the move of all segments below `corrupt/`, and the record that starts the new chain. In
ordinary surroundings only four things can go wrong, a name that raises, a file in the place of
`corrupt/`, a fatal line and a last sequence number that the report cannot print
(`OpenEnv.Ordinary.opens_iff`); otherwise the log is taken over or set aside, and no byte of it is lost
(`OpenEnv.Ordinary.restarted`). -/

namespace Elyra.Audit

open Elyra.Python

variable {F : Type} [FloatNum F] {H : HexDigest}

/-! ## The repair -/

/-- There is nothing to cut off a complete file. -/
theorem completeLength_complete {data : Bytes} (h : data = [] ∨ endsWithLf data = true) :
    completeLength data = data.length := by
  rcases h with rfl | h
  · rfl
  · rcases List.eq_nil_or_concat data with rfl | ⟨init, b, rfl⟩
    · rfl
    · have hb : b = lf := by simpa [endsWithLf] using h
      simp [completeLength, hb]

/-- The active file as `__init__` verifies it: with `repair_trailing_partial` it ends after its last
    line feed. -/
def repairedActive (c : Config) (data : Bytes) : Bytes :=
  if c.repairTrailingPartial then data.take (completeLength data) else data

/-- The segments as `__init__` verifies them. -/
def openedSegments (c : Config) (dir : Dir) : List (PyStr × Bytes) :=
  (rotatedOf c.fileName dir).map Prod.snd ++
    match dir.files.get? c.fileName with
    | none => []
    | some data => [(c.fileName, repairedActive c data)]

/-- There is nothing to cut off. -/
def Whole (c : Config) (dir : Dir) : Prop :=
  ∀ data, dir.files.get? c.fileName = some data → repairedActive c data = data

/-- What the repair leaves: the segments to verify, and the cut-off bytes in the artifact. -/
structure Repaired (c : Config) (name : PyStr) (dir : Dir) (artifact : Option PyStr) (dir' : Dir) :
    Prop where
  segments : segmentsFor c.fileName dir' = openedSegments c dir
  named : ∀ a ∈ artifact, a = name
  kept : ∀ path, path ≠ name → dir'.corrupt.get? path = dir.corrupt.get? path
  fragment : ∀ data, dir.files.get? c.fileName = some data →
    repairedActive c data = data ∨
      ∃ cut, data = repairedActive c data ++ cut ∧ dir'.corrupt.get? name = some cut
  other : ∀ name, name ≠ c.fileName → dir'.files.get? name = dir.files.get? name

theorem completeLength_lt {data : Bytes} (h : ¬ (data = [] ∨ endsWithLf data = true)) :
    completeLength data < data.length := by
  obtain ⟨hne, hlf⟩ := not_or.1 h
  rcases List.eq_nil_or_concat data with rfl | ⟨init, b, rfl⟩
  · exact absurd rfl hne
  · have hb : (b != lf) = true := by simpa [endsWithLf] using hlf
    unfold completeLength
    have hdrop : (b :: init.reverse).dropWhile (fun b => b != lf) =
        init.reverse.dropWhile (fun b => b != lf) := List.dropWhile_cons_of_pos hb
    rw [List.concat_eq_append, List.reverse_append, List.reverse_singleton, List.singleton_append,
      hdrop]
    have hle := (List.dropWhile_sublist (l := init.reverse) (fun b => b != lf)).length_le
    simp only [List.length_append, List.length_reverse, List.length_singleton] at hle ⊢
    omega

/-- **What the repair does**: it fails where something is to be cut off and a file is in the place of
    `corrupt/`. -/
theorem repair_cases (c : Config) {name : PyStr} {dir : Dir} (hfresh : dir.corrupt.get? name = none) :
    (¬ Whole c dir ∧ corruptTaken dir = true ∧ (if c.repairTrailingPartial then repairActive c name dir
        else .ok (none, dir)) = .error .osError) ∨
      ((corruptTaken dir = true → Whole c dir) ∧ ∃ artifact dir',
        (if c.repairTrailingPartial then repairActive c name dir else .ok (none, dir)) =
          .ok (artifact, dir') ∧ Repaired c name dir artifact dir') := by
  have huntouched : Whole c dir → Repaired c name dir none dir := by
    intro hwhole
    refine ⟨?_, by simp, fun _ _ => rfl, fun data hdata => .inl (hwhole data hdata),
      fun _ _ => rfl⟩
    unfold segmentsFor openedSegments
    cases hactive : dir.files.get? c.fileName with
    | none => rfl
    | some data => simp only [hwhole data hactive]
  cases hrepair : c.repairTrailingPartial with
  | false =>
      have hwhole : Whole c dir := fun data _ => by simp [repairedActive, hrepair]
      exact .inr ⟨fun _ => hwhole, none, dir, rfl, huntouched hwhole⟩
  | true =>
      simp only [if_true, repairActive]
      cases hactive : dir.files.get? c.fileName with
      | none =>
          have hwhole : Whole c dir := fun data hdata => absurd (hactive.symm.trans hdata) (by simp)
          exact .inr ⟨fun _ => hwhole, none, dir, rfl, huntouched hwhole⟩
      | some data =>
          by_cases hcomplete : data = [] ∨ endsWithLf data = true
          · have hwhole : Whole c dir := by
              intro data' hdata'
              rw [hactive, Option.some.injEq] at hdata'
              subst hdata'
              simp [repairedActive, completeLength_complete hcomplete]
            exact .inr ⟨fun _ => hwhole, none, dir, if_pos hcomplete, huntouched hwhole⟩
          · have hcut : ¬ Whole c dir := by
              intro hwhole
              have hsame := congrArg List.length (hwhole data hactive)
              have hlt := completeLength_lt hcomplete
              simp only [repairedActive, hrepair, if_true, List.length_take] at hsame
              omega
            dsimp only
            rw [if_neg hcomplete, hfresh]
            by_cases htaken : corruptTaken dir = true
            · exact .inl ⟨hcut, htaken, if_pos htaken⟩
            · refine .inr ⟨fun h => absurd h htaken, some name, _, if_neg htaken, ?_⟩
              refine ⟨?_, by simp, fun path hpath => Dict.get?_set_ne _ hpath _, ?_,
                fun other hother => Dict.get?_set_ne _ hother _⟩
              · have hrotated : rotatedOf c.fileName
                    { files := dir.files.set c.fileName (data.take (completeLength data))
                      corrupt := dir.corrupt.set name (data.drop (completeLength data)) } =
                    rotatedOf c.fileName dir := rotatedOf_set_active _
                rw [segmentsFor, hrotated, Dict.get?_set_self, openedSegments, hactive]
                simp [repairedActive, hrepair]
              · intro data' hdata'
                rw [hactive, Option.some.injEq] at hdata'
                subst hdata'
                refine .inr ⟨data.drop (completeLength data), ?_, Dict.get?_set_self ..⟩
                simp [repairedActive, hrepair]

/-! ## The move -/

/-- What the loop over the segments leaves, wherever it starts. -/
theorem foldl_move (chain : PyStr) (segments : List (PyStr × Bytes)) (d : Dir) :
    let moved := segments.foldl (fun d segment =>
      ({ files := d.files.pop segment.1
         corrupt := d.corrupt.set (chain ++ [47] ++ segment.1) segment.2 } : Dir)) d
    (∀ name, moved.files.get? name =
      if name ∈ segments.map Prod.fst then none else d.files.get? name) ∧
    (∀ path, (∀ segment ∈ segments, path ≠ chain ++ [47] ++ segment.1) →
      moved.corrupt.get? path = d.corrupt.get? path) ∧
    ((segments.map Prod.fst).Nodup → ∀ segment ∈ segments,
      moved.corrupt.get? (chain ++ [47] ++ segment.1) = some segment.2) := by
  induction segments generalizing d with
  | nil => simp
  | cons segment segments ih =>
      simp only [List.foldl_cons]
      obtain ⟨hfiles, hother, hcopied⟩ := ih
        { files := d.files.pop segment.1
          corrupt := d.corrupt.set (chain ++ [47] ++ segment.1) segment.2 }
      refine ⟨fun name => ?_, fun path hpath => ?_, fun hnodup s hs => ?_⟩
      · rw [hfiles]
        by_cases hname : name = segment.1
        · simp [hname]
        · simp only [List.map_cons, List.mem_cons, hname, false_or, Dict.get?_pop_ne _ hname]
      · rw [hother path fun s hs => hpath s (List.mem_cons_of_mem _ hs)]
        exact Dict.get?_set_ne _ (hpath segment (List.mem_cons_self ..)) _
      · simp only [List.map_cons, List.nodup_cons] at hnodup
        rcases List.mem_cons.1 hs with rfl | hs
        · rw [hother _ fun s' hs' heq => hnodup.1 ?_]
          · exact Dict.get?_set_self ..
          · rw [List.append_cancel_left heq]
            exact List.mem_map_of_mem hs'
        · exact hcopied hnodup.2 s hs

/-- What the move leaves: no segment in the log directory, and each one below the new directory. -/
structure Moved (c : Config) (chain : PyStr) (dir dir' : Dir) : Prop where
  gone : segmentsFor c.fileName dir' = []
  copied : ∀ name data, (name, data) ∈ segmentsFor c.fileName dir →
    dir'.corrupt.get? (chain ++ [47] ++ name) = some data
  kept : ∀ path, (∀ segment ∈ segmentsFor c.fileName dir, path ≠ chain ++ [47] ++ segment.1) →
    dir'.corrupt.get? path = dir.corrupt.get? path

theorem moveSegments_moved (c : Config) (chain : PyStr) (dir : Dir) :
    Moved c chain dir (moveSegments c chain dir) := by
  obtain ⟨hfiles, hother, hcopied⟩ := foldl_move chain (segmentsFor c.fileName dir) dir
  refine ⟨?_, fun name data hmem => hcopied (segmentsFor_nodup _ _) _ hmem, hother⟩
  rw [List.eq_nil_iff_forall_not_mem]
  rintro ⟨name, data⟩ hmem
  obtain ⟨hget, hname⟩ := mem_segmentsFor.1 hmem
  rw [moveSegments, hfiles] at hget
  split at hget
  · exact absurd hget (by simp)
  · next hnot => exact hnot (List.mem_map_of_mem (mem_segmentsFor.2 ⟨hget, hname⟩))

/-! ## The surroundings -/

/-- What `__init__` relies on: usable names that are not taken, a clock that works, and a log no
    larger than a file system allows. A log named `integrity-report.json` would collide with the
    report, and one named `corrupt` with the directory. -/
structure OpenEnv.Ordinary (c : Config) (env : OpenEnv F) (dir : Dir) : Prop where
  fileName : Fits 255 c.fileName
  reportName : c.fileName ≠ py "integrity-report.json"
  corruptName : c.fileName ≠ py "corrupt"
  artifact : Fits pathMax env.artifact
  chain : Fits pathMax env.chain
  freshArtifact : dir.corrupt.get? env.artifact = none
  freshChain : inCorrupt dir env.chain = false
  apart : env.artifact ≠ env.chain ∧ stripText (env.chain ++ [47]) env.artifact = none
  stamp : ∃ stamp, env.stamp = .ok stamp ∧ stamp.Works
  size : logSize (segmentsFor c.fileName dir) < 2 ^ 64

theorem logSize_opened_le (c : Config) (dir : Dir) :
    logSize (openedSegments c dir) ≤ logSize (segmentsFor c.fileName dir) := by
  simp only [openedSegments, segmentsFor, logSize, List.map_append, List.sum_append]
  refine Nat.add_le_add_left ?_ _
  cases dir.files.get? c.fileName with
  | none => exact le_refl _
  | some data =>
      have hle : (repairedActive c data).length ≤ data.length := by
        unfold repairedActive
        split
        · exact (List.take_sublist _ _).length_le
        · exact le_refl _
      simpa using hle

/-! ## The quarantine -/

theorem inCorrupt_false_iff {dir : Dir} {name : PyStr} :
    inCorrupt dir name = false ↔
      ∀ path, (dir.corrupt.get? path).isSome = true →
        path ≠ name ∧ stripText (name ++ [47]) path = none := by
  simp only [inCorrupt, List.any_eq_false, Bool.or_eq_true, beq_iff_eq, not_or]
  constructor
  · intro h path hpath
    obtain ⟨data, hdata⟩ := Option.isSome_iff_exists.1 hpath
    obtain ⟨hne, hstrip⟩ := h (path, data) (Dict.mem_items.2 hdata)
    exact ⟨hne, by simpa using hstrip⟩
  · rintro h ⟨path, data⟩ hmem
    obtain ⟨hne, hstrip⟩ := h path (by rw [Dict.mem_items.1 hmem]; rfl)
    exact ⟨hne, by simp [hstrip]⟩

theorem mem_openedSegments {c : Config} {dir : Dir} {name : PyStr} {data : Bytes}
    (h : (name, data) ∈ openedSegments c dir) :
    ∃ old, (name, old) ∈ segmentsFor c.fileName dir := by
  simp only [openedSegments, segmentsFor, List.mem_append] at h ⊢
  rcases h with h | h
  · exact ⟨data, .inl h⟩
  · cases hactive : dir.files.get? c.fileName with
    | none =>
        rw [hactive] at h
        exact absurd h (by simp)
    | some old =>
        rw [hactive] at h
        simp only [List.mem_singleton, Prod.mk.injEq] at h
        exact ⟨old, .inr (by simp [h.1])⟩

section Ordinary

variable {c : Config} {env : OpenEnv F} {dir : Dir}

/-- The texts of the report of an ordinary log are printable. -/
theorem OpenEnv.Ordinary.printable (henv : env.Ordinary c dir) {report : IntegrityReport}
    (hfacts : ReportFacts F H (openedSegments c dir) report)
    (hartifact : ∀ a ∈ report.recoveryArtifact, a = env.artifact) : Printable report := by
  have hsize : logSize (openedSegments c dir) < 2 ^ 64 :=
    (logSize_opened_le c dir).trans_lt henv.size
  refine ⟨hex_fits hfacts.first, hex_fits hfacts.last, hfacts.records.trans_lt hsize, ?_, ?_, ?_,
    fun n hn => (hfacts.line n hn).trans_lt hsize, ?_, hfacts.counted⟩
  · rw [hfacts.count]
    exact (count_le_logSize _).trans_lt hsize
  · intro e he
    obtain ⟨htext, hlen⟩ := (hfacts.error e he).code
    exact ⟨htext, hlen⟩
  · intro name hname
    obtain ⟨data, hmem⟩ := hfacts.segment name hname
    obtain ⟨old, hold⟩ := mem_openedSegments hmem
    obtain ⟨htext, hlen⟩ := segment_name hold henv.fileName.text
    have hfile := henv.fileName.short
    exact ⟨htext, by simp only [pathMax]; omega⟩
  · intro a ha
    rw [hartifact a ha]
    exact henv.artifact

/-- **The report file can be written exactly when the last sequence number is within the digit
    limit.** -/
theorem Printable.reportBytes_iff {report : IntegrityReport} (h : Printable report) :
    (∃ data, reportBytes F report = .ok data) ↔ report.lastSequence < 10 ^ maxStrDigits := by
  rw [← h.encodable_iff (F := F) true]
  unfold reportBytes dumps
  cases henc : (Json.obj report.toDict : Json F).encodable true with
  | false => simp
  | true =>
      obtain ⟨body, hbody⟩ := encodeUtf8_print (Layout.indented 2) _ 0 (h.utf8 (F := F))
      have htext : encodeUtf8 ((Json.obj report.toDict : Json F).print (.indented 2) 0 ++ [10]) =
          some (body ++ [10]) := encodeUtf8_append.2 ⟨body, [10], hbody, rfl, rfl⟩
      simp [encode, htext]

/-- No segment has the name of the report. -/
theorem OpenEnv.Ordinary.reportName_free (henv : env.Ordinary c dir) {name : PyStr} {data : Bytes}
    (h : (name, data) ∈ segmentsFor c.fileName dir) : name ≠ py "integrity-report.json" := by
  rcases (mem_segmentsFor.1 h).2 with rfl | ⟨i, hindex⟩
  · exact henv.reportName
  · obtain ⟨suffix, rfl, hlen, hdigits⟩ := segmentNumber_eq_some hindex
    intro heq
    -- the last character of the report's name is a letter
    have hlast := congrArg List.getLast? heq
    obtain ⟨init, d, rfl⟩ : ∃ init d, suffix = init ++ [d] := by
      rcases List.eq_nil_or_concat suffix with rfl | ⟨init, d, hd⟩
      · exact absurd hlen (by simp)
      · exact ⟨init, d, by simpa using hd⟩
    rw [← List.append_assoc, List.getLast?_concat] at hlast
    have hd : d = 110 := by
      have hn : (py "integrity-report.json").getLast? = some 110 := by decide
      rw [hn] at hlast
      exact Option.some.inj hlast
    simp only [List.all_append, List.all_cons, List.all_nil, Bool.and_true, Bool.and_eq_true] at hdigits
    rw [hd] at hdigits
    exact absurd hdigits.2 (by decide)

/-- The repair does not change what is in the place of `corrupt/`. -/
theorem Repaired.taken {name : PyStr} {artifact : Option PyStr} {dir₁ : Dir}
    (h : Repaired c name dir artifact dir₁) (hname : c.fileName ≠ py "corrupt") :
    corruptTaken dir₁ = corruptTaken dir := by
  rw [corruptTaken, h.other _ (Ne.symm hname), corruptTaken]

/-- **The quarantine moves every segment**, and fails only on a report it cannot print. -/
theorem OpenEnv.Ordinary.quarantine (henv : env.Ordinary c dir) (hfree : corruptTaken dir = false)
    {artifact : Option PyStr} {dir₁ : Dir} (hrepaired : Repaired c env.artifact dir artifact dir₁)
    (report : IntegrityReport) :
    ∃ dir₂, Moved c env.chain dir₁ dir₂ ∧
      quarantineSegments F c report env.chain dir₁ =
        match reportBytes F report with
        | .error x => (.error (.python x), { dir₂ with
            corrupt := dir₂.corrupt.set (env.chain ++ py "/integrity-report.json") [] })
        | .ok data => (.ok (), { dir₂ with
            corrupt := dir₂.corrupt.set (env.chain ++ py "/integrity-report.json") data }) := by
  have hfresh := inCorrupt_false_iff.1 henv.freshChain
  have hfresh₁ : ∀ path, (dir₁.corrupt.get? path).isSome = true →
      path ≠ env.chain ∧ stripText (env.chain ++ [47]) path = none := by
    intro path hpath
    by_cases hname : path = env.artifact
    · rw [hname]
      exact henv.apart
    · rw [hrepaired.kept path hname] at hpath
      exact hfresh path hpath
  have hmoved := moveSegments_moved c env.chain dir₁
  have hunused : (moveSegments c env.chain dir₁).corrupt.get?
      (env.chain ++ py "/integrity-report.json") = none := by
    have hpath : env.chain ++ py "/integrity-report.json" =
        env.chain ++ [47] ++ py "integrity-report.json" := by
      rw [List.append_assoc]
      rfl
    rw [hpath, hmoved.kept _ ?_]
    · cases hget : dir₁.corrupt.get? (env.chain ++ [47] ++ py "integrity-report.json") with
      | none => rfl
      | some data =>
          have hnone := (hfresh₁ _ (by rw [hget]; rfl)).2
          rw [stripText_append] at hnone
          exact absurd hnone (by simp)
    · rintro ⟨name, data⟩ hmem heq
      rw [hrepaired.segments] at hmem
      obtain ⟨old, hold⟩ := mem_openedSegments hmem
      exact henv.reportName_free hold (List.append_cancel_left heq).symm
  refine ⟨moveSegments c env.chain dir₁, hmoved, ?_⟩
  rw [quarantineSegments, (hrepaired.taken henv.corruptName).trans hfree, inCorrupt_false_iff.2 hfresh₁]
  cases reportBytes F report with
  | error x => simp only [Bool.false_eq_true, if_false, hunused, Option.isSome_none]
  | ok data => simp only [Bool.false_eq_true, if_false, hunused, Option.isSome_none]

/-! ## Opening -/

/-- Every old segment is below `corrupt/`, byte for byte: as a whole, or in two parts when a fragment
    was cut off first. -/
def Preserved (c : Config) (env : OpenEnv F) (dir dir' : Dir) : Prop :=
  ∀ name data, (name, data) ∈ segmentsFor c.fileName dir →
    ∃ copy, dir'.corrupt.get? (env.chain ++ [47] ++ name) = some copy ∧
      (copy = data ∨ name = c.fileName ∧
        ∃ cut, data = copy ++ cut ∧ dir'.corrupt.get? env.artifact = some cut)

/-- The log after a quarantine: one record, the first of a new chain, which says why. -/
structure Restarted (H : HexDigest) (c : Config) (lg : Logger) (dir' : Dir) (entry : Mapping F) :
    Prop where
  alone : LogRecords (segmentsFor c.fileName dir') [entry]
  file : ∃ line, segmentsFor c.fileName dir' = [(c.fileName, line)]
  source : lookup (py "source") entry = some (.str (py "audit"))
  subject : lookup (py "subject") entry = some (.str (py "corruption_recovery"))
  first : lookup (py "prev_hash") entry = some (.str zeroHash) ∧
    lookup (py "sequence") entry = some (.int 1)
  valid : ∃ report, verify F H c.fileName dir' false none = .ok report ∧ report.valid = true ∧
    report.recordCount = 1 ∧ report.lastHash = lg.lastHash ∧
      report.lastSequence = lg.lastSequence

theorem OpenEnv.Ordinary.preserved (henv : env.Ordinary c dir) {artifact : Option PyStr}
    {dir₁ dir₂ dir' : Dir} (hrepaired : Repaired c env.artifact dir artifact dir₁)
    (hmoved : Moved c env.chain dir₁ dir₂) {data' : Bytes}
    (hcorrupt : dir'.corrupt =
      dir₂.corrupt.set (env.chain ++ py "/integrity-report.json") data') :
    Preserved c env dir dir' := by
  intro name data hmem
  have hname : env.chain ++ [47] ++ name ≠ env.chain ++ py "/integrity-report.json" := by
    intro heq
    rw [List.append_assoc] at heq
    have hslash : [47] ++ name = [47] ++ py "integrity-report.json" := List.append_cancel_left heq
    exact henv.reportName_free hmem (List.append_cancel_left hslash)
  have hcopied : ∀ copy, (name, copy) ∈ openedSegments c dir →
      dir'.corrupt.get? (env.chain ++ [47] ++ name) = some copy := by
    intro copy hcopy
    rw [hcorrupt, Dict.get?_set_ne _ hname]
    exact hmoved.copied name copy (by rw [hrepaired.segments]; exact hcopy)
  obtain ⟨hget, hrole⟩ := mem_segmentsFor.1 hmem
  rcases hrole with rfl | ⟨i, hindex⟩
  · have hopened : (c.fileName, repairedActive c data) ∈ openedSegments c dir := by
      simp [openedSegments, hget]
    refine ⟨repairedActive c data, hcopied _ hopened, ?_⟩
    rcases hrepaired.fragment data hget with hsame | ⟨cut, hcut, hartifact⟩
    · exact .inl hsame
    · refine .inr ⟨rfl, cut, hcut, ?_⟩
      have hother : env.artifact ≠ env.chain ++ py "/integrity-report.json" := by
        intro heq
        have hnone := henv.apart.2
        have hpath : env.chain ++ py "/integrity-report.json" =
            env.chain ++ [47] ++ py "integrity-report.json" := by
          rw [List.append_assoc]
          rfl
        rw [heq, hpath, stripText_append] at hnone
        exact absurd hnone (by simp)
      rw [hcorrupt, Dict.get?_set_ne _ hother, hmoved.kept _ ?_]
      · exact hartifact
      · intro segment _ heq
        have hnone := henv.apart.2
        rw [heq, stripText_append] at hnone
        exact absurd hnone (by simp)
  · have hopened : (name, data) ∈ openedSegments c dir :=
      List.mem_append_left _ (List.mem_map.2 ⟨(i, name, data), mem_rotatedOf.2 ⟨hget, hindex⟩, rfl⟩)
    exact ⟨data, hcopied data hopened, .inl rfl⟩

/-- A log that is valid after the repair is taken over as it is. -/
theorem openLogger_kept (hc : c.valid = true) {artifact : Option PyStr} {dir₁ : Dir}
    (hrepair : (if c.repairTrailingPartial then repairActive c env.artifact dir
      else .ok (none, dir)) = .ok (artifact, dir₁)) {report : IntegrityReport}
    (hverify : verify F H c.fileName dir₁ artifact.isSome artifact = .ok report)
    (hvalid : report.valid = true) :
    openLogger H c env dir =
      (.ok {
        config := c
        lastHash := report.lastHash
        lastSequence := report.lastSequence
        repairedPartial := artifact.isSome
        recoveryArtifact := artifact }, dir₁) := by
  rw [openLogger, if_neg (by simp [hc]), hrepair]
  simp only [hverify, hvalid, if_true]

/-- **A damaged log is set aside and a new chain is started**, when its report can be printed. -/
theorem OpenEnv.Ordinary.restarted (henv : env.Ordinary c dir) (hfree : corruptTaken dir = false)
    (hc : c.valid = true)
    (hpolicy : c.quarantineCorrupt = true) (hlimit : c.maxRecordBytes = 1024 * 1024)
    {artifact : Option PyStr} {dir₁ : Dir}
    (hrepair : (if c.repairTrailingPartial then repairActive c env.artifact dir
      else .ok (none, dir)) = .ok (artifact, dir₁))
    (hrepaired : Repaired c env.artifact dir artifact dir₁) {report : IntegrityReport}
    (hverify : verify F H c.fileName dir₁ artifact.isSome artifact = .ok report)
    (hinvalid : report.valid = false) (hsequence : report.lastSequence < 10 ^ maxStrDigits) :
    ∃ lg dir', ∃ entry : Mapping F, openLogger H c env dir = (.ok lg, dir') ∧
      Restarted H c lg dir' entry ∧ Preserved c env dir dir' := by
  obtain ⟨stamp, hstamp, hworks⟩ := henv.stamp
  have hreport := hverify
  rw [verify, hrepaired.segments] at hreport
  obtain ⟨hfacts, -, hart⟩ := report_facts hreport
  have hprint := henv.printable hfacts fun a ha => hrepaired.named a (hart ▸ ha)
  obtain ⟨data, hdata⟩ := (hprint.reportBytes_iff (F := F)).2 hsequence
  obtain ⟨dir₂, hmoved, hquarantine⟩ := henv.quarantine hfree hrepaired report
  rw [hdata] at hquarantine
  obtain ⟨henc, hutf, hweight⟩ := recovery_fits hprint hsequence henv.chain hworks
  obtain ⟨lg, hlg⟩ : ∃ lg : Logger, lg = {
      config := c
      repairedPartial := artifact.isSome
      recoveryArtifact := some env.chain } := ⟨_, rfl⟩
  have hconfig : lg.config = c := by rw [hlg]
  have hinput : validateRecordInput (recoveryInput (F := F) report env.chain) = .ok () := by
    have hnames : (validName (py "audit") && validName (py "corruption_recovery")) = true := by
      decide
    simp only [validateRecordInput, recoveryInput, hnames, if_true]
  obtain ⟨dir₃, hdir₃⟩ : ∃ dir₃ : Dir, dir₃ = { dir₂ with
      corrupt := dir₂.corrupt.set (env.chain ++ py "/integrity-report.json") data } := ⟨_, rfl⟩
  have hempty : segmentsFor c.fileName dir₃ = [] := hdir₃ ▸ hmoved.gone
  have hfirst : segmentsFor lg.config.fileName dir₃ = [] := by
    rw [hconfig]
    exact hempty
  obtain ⟨plan, hplan, hrecord⟩ := record_starts (H := H) hfirst hinput henc hutf
    (by rw [hconfig, hlimit]; omega)
  rw [hconfig] at hrecord
  refine ⟨{ lg with lastHash := plan.hash, lastSequence := 1 },
    { dir₃ with files := dir₃.files.set c.fileName plan.line }, plan.entry, ?_, ?_, ?_⟩
  · rw [openLogger, if_neg (by simp [hc]), hrepair]
    simp only [hverify, hinvalid, hpolicy, hquarantine, hstamp, Bool.false_eq_true,
      Bool.true_eq_false, if_false, ← hlg, ← hdir₃, hrecord, hconfig]
  · have hrot : rotatedOf c.fileName dir₃ = [] := by
      have := List.append_eq_nil_iff.1 hempty
      exact List.map_eq_nil_iff.1 this.1
    have hrot' : rotatedOf c.fileName
        { dir₃ with files := dir₃.files.set c.fileName plan.line } = [] :=
      (rotatedOf_set_active _).trans hrot
    have hsegments : segmentsFor c.fileName
        { dir₃ with files := dir₃.files.set c.fileName plan.line } = [(c.fileName, plan.line)] := by
      rw [segmentsFor, hrot', Dict.get?_set_self]
      rfl
    have hholds : Holds [plan.line] [plan.entry] := by
      have := holds_line hplan.built.wf hplan.encoded holds_empty
      simpa using this
    have halone : LogRecords (segmentsFor c.fileName
        { dir₃ with files := dir₃.files.set c.fileName plan.line }) [plan.entry] := by
      rw [hsegments]
      exact logRecords_iff.2 hholds
    have hcheck := hplan.built.check hplan.hex zeroHash_hex (s := {}) (.inl rfl) (le_refl 0)
    refine ⟨halone, ⟨_, hsegments⟩, hplan.carries.source, hplan.carries.subject,
      ⟨hplan.built.prev_eq, hplan.built.sequence_eq⟩, ?_⟩
    obtain ⟨hok, hvalid⟩ := verify_valid_iff.2 ⟨_, _, halone, hcheck, rfl⟩
    exact ⟨_, hok, hvalid, rfl, rfl, rfl⟩
  · exact henv.preserved hrepaired hmoved (congrArg Dir.corrupt hdir₃)

/-- Verification reads no fatal line. -/
def NeverFatal (F : Type) [FloatNum F] (H : HexDigest) (segments : List (PyStr × Bytes)) : Prop :=
  ¬ ∃ line link, Reaches F H segments line link ∧ Fatal F link line

/-- The segments hold a chain of records and nothing else. -/
def ValidChain (F : Type) [FloatNum F] (H : HexDigest) (segments : List (PyStr × Bytes)) : Prop :=
  ∃ (records : List (Mapping F)) (link : Option PyStr) (last : Int),
    LogRecords segments records ∧ WellChained H records link last

theorem validChain_iff {segments : List (PyStr × Bytes)} {repaired : Bool}
    {artifact : Option PyStr} {report : IntegrityReport}
    (h : verifySegments (F := F) H segments repaired artifact = .ok report) :
    ValidChain F H segments ↔ report.valid = true := by
  constructor
  · rintro ⟨records, link, last, hlog, hchain⟩
    obtain ⟨s, hcheck, -, -⟩ := wellChained_iff.1 hchain
    obtain ⟨hok, hvalid⟩ := verify_valid_iff.2 ⟨records, s, hlog, hcheck, rfl⟩
    rw [h, Except.ok.injEq] at hok
    rw [hok]
    exact hvalid
  · intro hvalid
    obtain ⟨records, s, hlog, hcheck, -⟩ := verify_valid_iff.1 ⟨h, hvalid⟩
    exact ⟨records, s.previousHash, s.lastSequence, hlog, wellChained_iff.2 ⟨s, hcheck, rfl, rfl⟩⟩

/-- A recovery that raises nothing has found the name `corrupt` free, and its numbers can be printed. -/
theorem OpenEnv.Ordinary.recovered (henv : env.Ordinary c dir) {artifact : Option PyStr} {dir₁ : Dir}
    (hrepaired : Repaired c env.artifact dir artifact dir₁) {report : IntegrityReport}
    (hverify : verifySegments (F := F) H (openedSegments c dir) artifact.isSome artifact = .ok report)
    (hquiet : ∀ e dir₂, quarantineSegments F c report env.chain dir₁ ≠ (.error e, dir₂)) :
    corruptTaken dir = false ∧
      ∀ last, ChainTo F H (openedSegments c dir) last → last < 10 ^ maxStrDigits := by
  cases hfree : corruptTaken dir with
  | true =>
      refine absurd ?_ (hquiet .osError dir₁)
      rw [quarantineSegments, if_pos ((hrepaired.taken henv.corruptName).trans hfree)]
  | false =>
      refine ⟨rfl, fun last hlast => ?_⟩
      obtain ⟨hfacts, -, hart⟩ := report_facts hverify
      have hprint := henv.printable hfacts fun a ha => hrepaired.named a (hart ▸ ha)
      obtain ⟨dir₂, -, hquarantine⟩ := henv.quarantine hfree hrepaired report
      cases hbytes : reportBytes F report with
      | error x =>
          rw [hbytes] at hquarantine
          exact absurd hquarantine (hquiet _ _)
      | ok data =>
          have hbound := (hprint.reportBytes_iff (F := F)).1 ⟨data, hbytes⟩
          exact (hfacts.longest last hlast).trans_lt hbound

/-- **When `__init__` succeeds**: no name raises, it reads no fatal line, the report of a log that is
    not valid has a last sequence number within the digit limit, and nothing goes below `corrupt/` where
    a file has that name. -/
theorem OpenEnv.Ordinary.opens_iff (henv : env.Ordinary c dir) (hc : c.valid = true)
    (hpolicy : c.quarantineCorrupt = true) (hlimit : c.maxRecordBytes = 1024 * 1024) :
    (∃ lg dir', initLogger H c env dir = (.ok lg, dir')) ↔
      Listable c.fileName dir ∧ NeverFatal F H (openedSegments c dir) ∧
        (ValidChain F H (openedSegments c dir) ∨
          ∀ last, ChainTo F H (openedSegments c dir) last → last < 10 ^ maxStrDigits) ∧
        (corruptTaken dir = true → Whole c dir ∧ ValidChain F H (openedSegments c dir)) := by
  by_cases hlist : Listable c.fileName dir
  swap
  · refine iff_of_false ?_ fun h => hlist h.1
    rintro ⟨lg, dir', hopen⟩
    exact hlist (listable_of_initLogger hopen)
  rw [initLogger_eq hlist, and_iff_right hlist]
  rcases repair_cases c henv.freshArtifact with ⟨hcut, htaken, hrepair⟩ | ⟨hwhole, artifact, dir₁, hrepair, hrepaired⟩
  · refine iff_of_false ?_ fun h => hcut (h.2.2 htaken).1
    rintro ⟨lg, dir', hopen⟩
    rw [openLogger, if_neg (by simp [hc]), hrepair] at hopen
    exact absurd (congrArg Prod.fst hopen) (by simp)
  have hsegments := hrepaired.segments
  constructor
  · rintro ⟨lg, dir', hopen⟩
    rw [openLogger, if_neg (by simp [hc]), hrepair] at hopen
    simp only at hopen
    split at hopen
    · exact absurd (congrArg Prod.fst hopen) (by simp)
    · next report hverify =>
      rw [verify, hsegments] at hverify
      refine ⟨verifySegments_returns_iff.1 ⟨report, hverify⟩, ?_⟩
      cases hvalid : report.valid with
      | true =>
          have hchain := (validChain_iff hverify).2 hvalid
          exact ⟨.inl hchain, fun htaken => ⟨hwhole htaken, hchain⟩⟩
      | false =>
          simp only [hvalid, hpolicy, Bool.false_eq_true, Bool.true_eq_false, if_false] at hopen
          obtain ⟨hfree, hbound⟩ := henv.recovered hrepaired hverify fun e dir₂ hquarantine => by
            rw [hquarantine] at hopen
            exact absurd (congrArg Prod.fst hopen) (by simp)
          exact ⟨.inr hbound, fun htaken => absurd (hfree.symm.trans htaken) (by simp)⟩
  · rintro ⟨hnever, hbound, hroom⟩
    obtain ⟨report, hreport⟩ : ∃ report, verifySegments (F := F) H (openedSegments c dir)
        artifact.isSome artifact = .ok report := verifySegments_returns_iff.2 hnever
    have hverify : verify F H c.fileName dir₁ artifact.isSome artifact = .ok report := by
      rw [verify, hsegments]
      exact hreport
    cases hvalid : report.valid with
    | true => exact ⟨_, dir₁, openLogger_kept hc hrepair hverify hvalid⟩
    | false =>
        have hbroken : ¬ ValidChain F H (openedSegments c dir) := by
          intro hchain
          rw [(validChain_iff hreport).1 hchain] at hvalid
          cases hvalid
        have hsequence := (hbound.resolve_left hbroken) _ (report_facts hreport).1.sequence
        have hfree : corruptTaken dir = false :=
          Bool.eq_false_iff.2 fun htaken => hbroken (hroom htaken).2
        obtain ⟨lg, dir', entry, hopen, -, -⟩ :=
          henv.restarted hfree hc hpolicy hlimit hrepair hrepaired hverify hvalid hsequence
        exact ⟨lg, dir', hopen⟩

end Ordinary

def quarantineConfig : Config where
  fileName := py "audit.jsonl"
  maxBytes := 10 * 1024 * 1024
  backupCount := 10
  maxRecordBytes := 1024 * 1024
  quarantineCorrupt := true
  repairTrailingPartial := true

/-- A record of the older schema with the escape of a lone surrogate. -/
def surrogateLine : Bytes :=
  (py "\x7b\"timestamp\":0,\"source\":\"a\",\"subject\":\"b\",\"payload\":\"\\ud800\",\"prev_hash\":\"" ++
    zeroHash ++ py "\",\"record_hash\":\"" ++ zeroHash ++ py "\"\x7d").map UInt8.ofNat ++ [lf]

def surrogateDir : Dir where
  files := Dict.empty.set (py "audit.jsonl") surrogateLine

/-- The flags of a report are passed through. -/
theorem verifySegments_flags {segments : List (PyStr × Bytes)} {report : IntegrityReport}
    (h : verifySegments (F := F) H segments false none = .ok report) (repaired : Bool)
    (artifact : Option PyStr) :
    verifySegments (F := F) H segments repaired artifact = .ok { report with
      repairedTrailingPartial := repaired
      recoveryArtifact := artifact } := by
  unfold verifySegments at h ⊢
  cases hscan : scanSegments (F := F) H {} segments with
  | ok s =>
      simp only [hscan, Except.ok.injEq] at h
      rw [← h]
      rfl
  | error f =>
      cases hhalt : f.halt with
      | raised x =>
          simp only [hscan, hhalt] at h
          exact absurd h (by simp)
      | report e =>
          simp only [hscan, hhalt, Except.ok.injEq] at h
          rw [← h]
          simp only [hhalt]

/-- A complete line that is no JSON, above a fragment. -/
def brokenDir : Dir where
  files := Dict.empty.set (py "audit.jsonl") [120, lf, 121]

theorem brokenDir_ordinary : sampleEnv.Ordinary quarantineConfig brokenDir where
  fileName := ⟨by decide, by decide⟩
  reportName := by decide
  corruptName := by decide
  artifact := ⟨by decide, by decide⟩
  chain := ⟨by decide, by decide⟩
  freshArtifact := rfl
  freshChain := rfl
  apart := by decide
  stamp := ⟨sampleStamp, rfl, by decide, by decide, ⟨by decide, by decide⟩, ⟨by decide, by decide⟩⟩
  size := by decide

theorem brokenDir_listable : Listable quarantineConfig.fileName brokenDir := by
  intro name data hget
  have hmem : (name, data) ∈ brokenDir.files.items := Dict.mem_items.2 hget
  obtain ⟨rfl, -⟩ := Prod.mk.inj (List.mem_singleton.1 hmem)
  decide

def brokenReport : IntegrityReport where
  valid := false
  recordCount := 0
  segmentCount := 1
  coverage := .unknown
  firstPrevHash := zeroHash
  lastHash := zeroHash
  lastSequence := 0
  error := some .invalidJson
  errorSegment := some (py "audit.jsonl")
  errorLine := some 1

theorem brokenDir_report :
    verifySegments (F := SampleFloat) sha256Digest (openedSegments quarantineConfig brokenDir) false
      none = .ok brokenReport := rfl

end Elyra.Audit
