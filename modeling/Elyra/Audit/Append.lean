import Elyra.Audit.Logger

set_option autoImplicit false
set_option linter.unusedSectionVars false

/-! # What an append leaves behind

An append is a rotation (perhaps), the creation of the active file, and the bytes of the line. This
file describes the directory after any initial part of it, seen from outside as the bytes of the
segments in order: some of the oldest segments may be gone (retention), and the last segment, or a
new one, may end with a part of the line (`AppendState`). Everything the failure and recovery
results say about an interrupted append follows from this one description. -/

namespace Elyra.Audit

open Elyra.Python

variable {F : Type}

/-! ## The contents of the segments -/

/-- The bytes of the segments in order. -/
def contents (fileName : PyStr) (dir : Dir) : List Bytes := (segmentsFor fileName dir).map Prod.snd

theorem contents_eq (fileName : PyStr) (dir : Dir) :
    contents fileName dir =
      (rotatedOf fileName dir).map (·.2.2) ++ (dir.files.get? fileName).toList := by
  unfold contents segmentsFor
  cases dir.files.get? fileName <;> simp [Function.comp_def]

theorem segmentsFor_length (fileName : PyStr) (dir : Dir) :
    (segmentsFor fileName dir).length = (contents fileName dir).length := by
  simp [contents]

/-! ## Stopping an append -/

/-- What a directory looks like once an append has put `written` of its line: `j` of the oldest
    segments are gone, at most `limit`, and `written` ends the last segment
    or a new one. `active` is the active file. -/
inductive AppendState (before : List Bytes) (limit : Nat) :
    Bytes → List Bytes → Option Bytes → Prop
  | untouched (j : Nat) (hj : j ≤ limit) {active : Option Bytes}
      (hactive : active = none ∨ ∃ init last, before.drop j = init ++ [last] ∧ active = some last) :
      AppendState before limit [] (before.drop j) active
  | extended (j : Nat) (hj : j ≤ limit) (init : List Bytes)
      (last written : Bytes)
      (hlast : before.drop j = init ++ [last] ∨ (before.drop j = init ∧ last = [])) :
      AppendState before limit written (init ++ [last ++ written]) (some (last ++ written))

section Stopped

variable {c : Config} {dir : Dir}

/-- The active file as the last of the contents. -/
theorem active_last {data : Bytes} (h : dir.files.get? c.fileName = some data) :
    contents c.fileName dir = (rotatedOf c.fileName dir).map (·.2.2) ++ [data] := by
  rw [contents_eq, h]
  rfl

/-- The rotated segments, the active file and the corrupt files of a directory. -/
structure Shape (fileName : PyStr) (dir : Dir) (rotated : List Rotated) (active : Option Bytes)
    (corrupt : Dict PyStr Bytes) : Prop where
  rotated : rotatedOf fileName dir = rotated
  active : dir.files.get? fileName = active
  corrupt : dir.corrupt = corrupt

variable {rotated : List Rotated} {active : Option Bytes} {corrupt : Dict PyStr Bytes}

theorem Shape.contents_eq (h : Shape c.fileName dir rotated active corrupt) :
    contents c.fileName dir = rotated.map (·.2.2) ++ active.toList := by
  rw [Elyra.Audit.contents_eq, h.rotated, h.active]

theorem Shape.create (h : Shape c.fileName dir rotated active corrupt) :
    Shape c.fileName (Effect.apply dir (.create c.fileName)) rotated (some (active.getD []))
      corrupt := by
  cases hactive : dir.files.get? c.fileName with
  | none =>
      rw [h.active] at hactive
      subst hactive
      simp only [Effect.apply, h.active]
      exact ⟨(rotatedOf_set_active []).trans h.rotated, Dict.get?_set_self .., h.corrupt⟩
  | some data =>
      rw [h.active] at hactive
      subst hactive
      simp only [Effect.apply, h.active]
      exact h

theorem Shape.append (h : Shape c.fileName dir rotated active corrupt) (data : Bytes) :
    Shape c.fileName (Effect.apply dir (.append c.fileName data)) rotated
      (some (active.getD [] ++ data)) corrupt := by
  simp only [Effect.apply, h.active]
  exact ⟨(rotatedOf_set_active _).trans h.rotated, Dict.get?_set_self .., h.corrupt⟩

/-- Creating the active file and writing to it. -/
theorem Shape.write (h : Shape c.fileName dir rotated active corrupt) (data : Bytes) :
    Shape c.fileName (applyAll dir [.create c.fileName, .append c.fileName data]) rotated
      (some (active.getD [] ++ data)) corrupt := h.create.append data

/-- Any initial part of creating the active file and writing a line to it. -/
theorem Shape.cut_append (h : Shape c.fileName dir rotated active corrupt) {line : Bytes}
    {done : List Effect} (hcut : Cut [.create c.fileName, .append c.fileName line] done) :
    written done <+: line ∧
    ((done = [] ∧ Shape c.fileName (applyAll dir done) rotated active corrupt) ∨
      Shape c.fileName (applyAll dir done) rotated (some (active.getD [] ++ written done))
        corrupt) := by
  cases hcut with
  | stop => exact ⟨by simp [written], .inl ⟨rfl, h⟩⟩
  | step _ hcut =>
      cases hcut with
      | stop => exact ⟨by simp [written], .inr (by simpa [applyAll, written] using h.create)⟩
      | step _ hcut =>
          cases hcut with
          | stop => exact ⟨by simp [written], .inr (by simpa [written] using h.write line)⟩
      | short _ part rest _ =>
          refine ⟨by simp [written], .inr ?_⟩
          simpa [written] using h.write part

/-- Stopping among effects that write nothing, or after them. -/
theorem cut_quiet {quiet rest done : List Effect}
    (hquiet : ∀ name data, Effect.append name data ∉ quiet) (h : Cut (quiet ++ rest) done) :
    (∃ j ≤ quiet.length, done = quiet.take j) ∨
      ∃ done', done = quiet ++ done' ∧ Cut rest done' := by
  induction quiet generalizing done with
  | nil => exact .inr ⟨done, rfl, h⟩
  | cons e quiet ih =>
      rw [List.cons_append] at h
      cases h with
      | stop => exact .inl ⟨0, Nat.zero_le _, rfl⟩
      | step _ h =>
          rcases ih (fun name data hmem => hquiet name data (List.mem_cons_of_mem _ hmem)) h with
            ⟨j, hj, rfl⟩ | ⟨done', rfl, hcut⟩
          · exact .inl ⟨j + 1, Nat.succ_le_succ hj, rfl⟩
          · exact .inr ⟨done', rfl, hcut⟩
      | short name part rest' _ => exact absurd (List.mem_cons_self ..) (hquiet name (part ++ rest'))

theorem written_quiet {quiet : List Effect} (hquiet : ∀ name data, Effect.append name data ∉ quiet)
    (done : List Effect) : written (quiet ++ done) = written done := by
  induction quiet with
  | nil => rfl
  | cons e quiet ih =>
      have hrest := ih fun name data hmem => hquiet name data (List.mem_cons_of_mem _ hmem)
      cases e with
      | append name data => exact absurd (List.mem_cons_self ..) (hquiet name data)
      | replace src dst => exact hrest
      | unlink name => exact hrest
      | create name => exact hrest

theorem rotateEffects_quiet (name : PyStr) (data : Bytes) :
    Effect.append name data ∉ rotateEffects c dir := by
  intro hmem
  unfold rotateEffects at hmem
  split at hmem
  · exact absurd hmem (by simp)
  · rcases List.mem_cons.1 hmem with heq | hmem
    · exact absurd heq (by simp)
    · obtain ⟨r, -, heq⟩ := List.mem_map.1 hmem
      exact absurd heq (by simp)

/-- Unlinking the oldest segments one by one. -/
theorem Shape.unlinks (h : Shape c.fileName dir rotated active corrupt) (j : Nat) :
    Shape c.fileName (applyAll dir (((rotated.take j).map (·.2.1)).map Effect.unlink))
      (rotated.drop j) active corrupt := by
  induction j generalizing dir rotated with
  | zero => exact h
  | succ j ih =>
      cases rotated with
      | nil => exact h
      | cons segment rest =>
          obtain ⟨hrest, hactive⟩ := rotated_unlink h.rotated
          exact ih ⟨hrest, hactive.trans h.active, h.corrupt⟩

/-- A rotation: the active file becomes the last rotated segment, then the oldest ones go. -/
theorem Shape.rotate {data : Bytes} (hdata : data ≠ [])
    (h : Shape c.fileName dir rotated (some data) corrupt)
    (hindex : nextRotationIndex c.fileName dir ≤ 999999) :
    ∃ segment : Rotated, segment.1 = nextRotationIndex c.fileName dir ∧ segment.2.2 = data ∧
      Shape c.fileName (Effect.apply dir (.replace c.fileName segment.2.1)) (rotated ++ [segment])
        none corrupt ∧
      rotateEffects c dir = .replace c.fileName segment.2.1 ::
        (((rotated ++ [segment]).take (rotated.length + 1 - c.backupCount.toNat)).map
          (·.2.1)).map Effect.unlink := by
  have hne : ¬ (dir.files.get? c.fileName).getD [] = [] := by simpa [h.active] using hdata
  obtain ⟨hrot, hnone⟩ := rotated_replace h.active hindex
  rw [h.rotated] at hrot
  refine ⟨(nextRotationIndex c.fileName dir,
    rotatedName c.fileName (nextRotationIndex c.fileName dir), data), rfl, rfl, ⟨hrot, hnone, ?_⟩,
    ?_⟩
  · simp only [Effect.apply, h.active]
    exact h.corrupt
  · simp only [rotateEffects, if_neg hne, hrot, List.length_append, List.length_singleton,
      List.map_map]
    rfl

/-- Any initial part of a rotation that is needed and of what follows it. -/
theorem Shape.cut_rotate {data : Bytes} (hdata : data ≠ [])
    (h : Shape c.fileName dir rotated (some data) corrupt)
    (hindex : nextRotationIndex c.fileName dir ≤ 999999) {rest done : List Effect}
    (hcut : Cut (rotateEffects c dir ++ rest) done) :
    (done = [] ∧ Shape c.fileName (applyAll dir done) rotated (some data) corrupt) ∨
    ∃ (segment : Rotated) (j : Nat) (dir' : Dir) (done' : List Effect),
      segment.1 = nextRotationIndex c.fileName dir ∧ segment.2.2 = data ∧
      j ≤ rotated.length + 1 - c.backupCount.toNat ∧
      Shape c.fileName dir' ((rotated ++ [segment]).drop j) none corrupt ∧
      applyAll dir done = applyAll dir' done' ∧ written done = written done' ∧
      (done' = [] ∨ Cut rest done') := by
  obtain ⟨segment, hnumber, hsegment, hreplace, heffects⟩ := h.rotate hdata hindex
  rcases cut_quiet rotateEffects_quiet hcut with ⟨k, hk, rfl⟩ | ⟨done', rfl, hrest⟩
  · cases k with
    | zero => exact .inl ⟨rfl, h⟩
    | succ j =>
        rw [heffects, List.length_cons] at hk
        have hj : j ≤ rotated.length + 1 - c.backupCount.toNat := by
          simp only [List.length_map, List.length_take] at hk
          omega
        refine .inr ⟨segment, j, _, [], hnumber, hsegment, hj, hreplace.unlinks j, ?_, ?_, .inl rfl⟩
        · rw [heffects, List.take_succ_cons, ← List.map_take, ← List.map_take, List.take_take,
            min_eq_left hj]
          rfl
        · have hquiet : ∀ name data, Effect.append name data ∉ (rotateEffects c dir).take (j + 1) :=
            fun name data hmem => rotateEffects_quiet name data (List.mem_of_mem_take hmem)
          simpa using written_quiet hquiet []
  · refine .inr ⟨segment, _, _, done', hnumber, hsegment, le_rfl, hreplace.unlinks _, ?_,
      written_quiet rotateEffects_quiet done', .inr hrest⟩
    rw [heffects]
    simp only [applyAll, List.foldl_cons, List.foldl_append]

/-- The effects of a plan. -/
def appendEffects (c : Config) (dir : Dir) (line : Bytes) : List Effect :=
  (if needsRotation c dir line then rotateEffects c dir else []) ++
    [.create c.fileName, .append c.fileName line]

theorem rotateEffects_targets (c : Config) (dir : Dir) :
    ∀ e ∈ rotateEffects c dir, ∀ name ∈ e.target, LogName c.fileName name := by
  intro e he name hname
  unfold rotateEffects at he
  split_ifs at he with hempty
  · cases he
  · rcases List.mem_cons.1 he with rfl | he
    · exact .inr ⟨_, (Option.some.inj hname).symm⟩
    · obtain ⟨r, -, rfl⟩ := List.mem_map.1 he
      cases hname

theorem appendEffects_targets (c : Config) (dir : Dir) (line : Bytes) :
    ∀ e ∈ appendEffects c dir line, ∀ name ∈ e.target, LogName c.fileName name := by
  intro e he name hname
  rcases List.mem_append.1 he with he | he
  · split_ifs at he
    · exact rotateEffects_targets c dir e he name hname
    · cases he
  · have hactive : e.target = some c.fileName := by
      rcases List.mem_cons.1 he with rfl | he
      · rfl
      · rw [List.mem_singleton.1 he]
        rfl
    exact .inl (Option.some.inj (hactive.symm.trans hname)).symm

theorem Cut.targets {effects done : List Effect} (hcut : Cut effects done) {P : PyStr → Prop}
    (h : ∀ e ∈ effects, ∀ name ∈ e.target, P name) : ∀ e ∈ done, ∀ name ∈ e.target, P name := by
  induction hcut with
  | stop effects =>
      intro e he
      cases he
  | step e hcut ih =>
      obtain ⟨hfirst, hrest⟩ := List.forall_mem_cons.1 h
      exact List.forall_mem_cons.2 ⟨hfirst, ih hrest⟩
  | short name written rest effects =>
      intro e he
      rw [List.mem_singleton.1 he]
      exact h (.append name (written ++ rest)) (List.mem_cons_self ..)

/-- No rotated segment is called `corrupt`. -/
theorem LogName.ne_corrupt {fileName name : PyStr} (h : LogName fileName name)
    (hfile : fileName ≠ py "corrupt") : name ≠ py "corrupt" := by
  rcases h with rfl | ⟨index, rfl⟩
  · exact hfile
  · intro heq
    -- there is no dot in the name of the directory
    have hdot : 46 ∈ py "corrupt" := by
      rw [← heq]
      simp [rotatedName]
    exact absurd hdot (by decide)

theorem corruptTaken_of_names {fileName : PyStr} {dir dir' : Dir} (h : NamesFrom fileName dir dir')
    (hfile : fileName ≠ py "corrupt") (hfree : corruptTaken dir = false) :
    corruptTaken dir' = false := by
  refine Bool.eq_false_iff.2 fun htaken => ?_
  rcases h (py "corrupt") htaken with hold | hlog
  · rw [corruptTaken] at hfree
    rw [hfree] at hold
    cases hold
  · exact hlog.ne_corrupt hfile rfl

/-- How many of the oldest segments an append may remove. -/
def retention (c : Config) (dir : Dir) (line : Bytes) : Nat :=
  if needsRotation c dir line then (contents c.fileName dir).length - c.backupCount.toNat else 0

theorem needsRotation_active {line : Bytes} (h : needsRotation c dir line = true) :
    ∃ data, dir.files.get? c.fileName = some data ∧ data ≠ [] := by
  simp only [needsRotation, Bool.and_eq_true, bne_iff_ne, ne_eq] at h
  cases hactive : dir.files.get? c.fileName with
  | none => exact absurd (by simp [hactive]) h.1
  | some data => exact ⟨data, rfl, by simpa [hactive] using h.1⟩

theorem shape_self (c : Config) (dir : Dir) : Shape c.fileName dir (rotatedOf c.fileName dir)
    (dir.files.get? c.fileName) dir.corrupt := ⟨rfl, rfl, rfl⟩

/-- The bytes of rotated segments whose last one was the active file. -/
theorem drop_contents {data : Bytes} {segment : Rotated} (hactive : dir.files.get? c.fileName = some data)
    (hsegment : segment.2.2 = data) (j : Nat) :
    ((rotatedOf c.fileName dir ++ [segment]).drop j).map (·.2.2) =
      (contents c.fileName dir).drop j := by
  rw [contents_eq, hactive, List.map_drop, List.map_append]
  simp [hsegment]

/-- A write to the active file, in terms of the contents. -/
theorem extended_of_shape {before : List Bytes} {limit j : Nat}
    (hj : j ≤ limit) {dir' : Dir} {written : Bytes}
    (hbefore : before.drop j = rotated.map (·.2.2) ++ active.toList)
    (h : Shape c.fileName dir' rotated (some (active.getD [] ++ written)) corrupt) :
    AppendState before limit written (contents c.fileName dir') (dir'.files.get? c.fileName) := by
  rw [h.contents_eq, h.active]
  refine AppendState.extended j hj (rotated.map (·.2.2)) (active.getD []) written ?_
  cases active with
  | none => exact .inr ⟨by simpa using hbefore, rfl⟩
  | some data => exact .inl (by simpa using hbefore)

/-- **Every way an append can stop.** -/
theorem cut_appendEffects {line : Bytes} {done : List Effect}
    (hindex : needsRotation c dir line = true → nextRotationIndex c.fileName dir ≤ 999999)
    (hcut : Cut (appendEffects c dir line) done) :
    (applyAll dir done).corrupt = dir.corrupt ∧ written done <+: line ∧
    nextRotationIndex c.fileName (applyAll dir done) ≤ nextRotationIndex c.fileName dir + 1 ∧
    AppendState (contents c.fileName dir) (retention c dir line) (written done)
      (contents c.fileName (applyAll dir done)) ((applyAll dir done).files.get? c.fileName) := by
  have hself := shape_self c dir
  have hold : ∀ segment ∈ rotatedOf c.fileName dir, segment.1 ≤ nextRotationIndex c.fileName dir :=
    fun segment hmem => (le_nextRotationIndex hmem).le
  unfold appendEffects at hcut
  split at hcut
  · next hneeds =>
    obtain ⟨data, hactive, hdata⟩ := needsRotation_active hneeds
    rw [hactive] at hself
    have hcontents := active_last hactive
    have hlength : (contents c.fileName dir).length = (rotatedOf c.fileName dir).length + 1 := by
      simp [hcontents]
    rcases hself.cut_rotate hdata (hindex hneeds) hcut with
      ⟨rfl, h⟩ | ⟨segment, j, dir', done', hnumber, hsegment, hj, h, heq, hwritten, hrest⟩
    · refine ⟨rfl, List.nil_prefix, Nat.le_succ _, AppendState.untouched 0 (Nat.zero_le _) (.inr ?_)⟩
      exact ⟨_, data, by simpa using hcontents, hactive⟩
    · have hj' : j ≤ retention c dir line := by
        rw [retention, if_pos hneeds]
        omega
      have hdrop := drop_contents hactive hsegment j
      have hnumbers : ∀ x ∈ (rotatedOf c.fileName dir ++ [segment]).drop j,
          x.1 ≤ nextRotationIndex c.fileName dir := by
        intro x hx
        rcases List.mem_append.1 (List.mem_of_mem_drop hx) with hx | hx
        · exact hold x hx
        · rw [List.mem_singleton] at hx
          rw [hx, hnumber]
      have hstopped : ∀ {d : Dir}, Shape c.fileName d
          ((rotatedOf c.fileName dir ++ [segment]).drop j) none dir.corrupt →
          AppendState (contents c.fileName dir) (retention c dir line) [] (contents c.fileName d)
            (d.files.get? c.fileName) := by
        intro d hd
        rw [hd.contents_eq, hd.active, hdrop, Option.toList_none, List.append_nil]
        exact AppendState.untouched j hj' (.inl rfl)
      rw [heq, hwritten]
      rcases hrest with rfl | hcut'
      · exact ⟨h.corrupt, List.nil_prefix, nextRotationIndex_le.2 (h.rotated ▸ hnumbers), hstopped h⟩
      · obtain ⟨hinitial, ⟨rfl, h'⟩ | h'⟩ := h.cut_append hcut'
        · exact ⟨h'.corrupt, hinitial, nextRotationIndex_le.2 (h'.rotated ▸ hnumbers), hstopped h'⟩
        · exact ⟨h'.corrupt, hinitial, nextRotationIndex_le.2 (h'.rotated ▸ hnumbers),
            extended_of_shape hj' (by simp [hdrop]) h'⟩
  · obtain ⟨hinitial, ⟨rfl, h⟩ | h⟩ := hself.cut_append hcut
    · refine ⟨rfl, hinitial, Nat.le_succ _, AppendState.untouched 0 (Nat.zero_le _) ?_⟩
      cases hactive : dir.files.get? c.fileName with
      | none => exact .inl hactive
      | some data => exact .inr ⟨_, data, by simpa using active_last hactive, hactive⟩
    · refine ⟨h.corrupt, hinitial, nextRotationIndex_le.2 (h.rotated ▸ hold),
        extended_of_shape (Nat.zero_le _) ?_ h⟩
      rw [List.drop_zero, contents_eq]

/-- A rotation that is not idle: the oldest segments go, the last one stays. -/
theorem rotate_effects {data : Bytes} (hactive : dir.files.get? c.fileName = some data)
    (hdata : data ≠ []) (hindex : nextRotationIndex c.fileName dir ≤ 999999) :
    ∃ (j : Nat) (rotated : List Rotated),
      j ≤ (contents c.fileName dir).length - c.backupCount.toNat ∧
      Shape c.fileName (applyAll dir (rotateEffects c dir)) rotated none dir.corrupt ∧
      rotated.map (·.2.2) = (contents c.fileName dir).drop j ∧
      ∀ segment ∈ rotated, segment.1 ≤ nextRotationIndex c.fileName dir := by
  have hself := shape_self c dir
  rw [hactive] at hself
  have hlength : (contents c.fileName dir).length = (rotatedOf c.fileName dir).length + 1 := by
    simp [active_last hactive]
  obtain ⟨segment, hnumber, hsegment, hreplace, heffects⟩ := hself.rotate hdata hindex
  rw [heffects]
  refine ⟨_, _, ?_, hreplace.unlinks _, drop_contents hactive hsegment _, fun x hx => ?_⟩
  · omega
  · rcases List.mem_append.1 (List.mem_of_mem_drop hx) with hx | hx
    · exact (le_nextRotationIndex hx).le
    · rw [List.mem_singleton] at hx
      rw [hx, hnumber]

/-- An append that runs to its end. -/
theorem full_appendEffects {line : Bytes}
    (hindex : needsRotation c dir line = true → nextRotationIndex c.fileName dir ≤ 999999) :
    (applyAll dir (appendEffects c dir line)).corrupt = dir.corrupt ∧
    AppendState (contents c.fileName dir) (retention c dir line) line
      (contents c.fileName (applyAll dir (appendEffects c dir line)))
      ((applyAll dir (appendEffects c dir line)).files.get? c.fileName) := by
  have hself := shape_self c dir
  unfold appendEffects
  rw [applyAll_append]
  split
  · next hneeds =>
    obtain ⟨data, hactive, hdata⟩ := needsRotation_active hneeds
    obtain ⟨j, rotated, hj, hrotated, hdrop, -⟩ := rotate_effects hactive hdata (hindex hneeds)
    have h := hrotated.write line
    have hj' : j ≤ retention c dir line := by
      rw [retention, if_pos hneeds]
      exact hj
    exact ⟨h.corrupt, extended_of_shape hj' (by simp [hdrop]) h⟩
  · have h := hself.write line
    refine ⟨h.corrupt, extended_of_shape (Nat.zero_le _) ?_ h⟩
    rw [List.drop_zero, contents_eq]

end Stopped

/-! ## The records of the contents -/

section Records

variable [FloatNum F] {H : HexDigest}

/-- These segments are complete and hold these records. -/
structure Holds (segments : List Bytes) (records : List (Mapping F)) : Prop where
  complete : ∀ data ∈ segments, data = [] ∨ endsWithLf data = true
  decoded : decodeAll (segments.flatMap splitlines) = some records

theorem logRecords_iff {segments : List (PyStr × Bytes)} {records : List (Mapping F)} :
    LogRecords segments records ↔ Holds (segments.map Prod.snd) records := by
  constructor
  · rintro ⟨h1, h2⟩
    refine ⟨fun data hdata => ?_, by rw [List.flatMap_map]; exact h2⟩
    obtain ⟨segment, hmem, rfl⟩ := List.mem_map.1 hdata
    exact h1 segment hmem
  · rintro ⟨h1, h2⟩
    refine ⟨fun segment hmem => h1 _ (List.mem_map.2 ⟨segment, hmem, rfl⟩), ?_⟩
    rw [List.flatMap_map] at h2
    exact h2

theorem holds_append {a b : List Bytes} {records : List (Mapping F)} :
    Holds (a ++ b) records ↔ ∃ r₁ r₂, Holds a r₁ ∧ Holds b r₂ ∧ records = r₁ ++ r₂ := by
  constructor
  · rintro ⟨h1, h2⟩
    rw [List.flatMap_append] at h2
    obtain ⟨r₁, r₂, hr₁, hr₂, rfl⟩ := decodeAll_append.1 h2
    exact ⟨r₁, r₂, ⟨fun d hd => h1 d (List.mem_append_left _ hd), hr₁⟩,
      ⟨fun d hd => h1 d (List.mem_append_right _ hd), hr₂⟩, rfl⟩
  · rintro ⟨r₁, r₂, ⟨h1, h2⟩, ⟨h3, h4⟩, rfl⟩
    refine ⟨fun d hd => ?_, ?_⟩
    · rcases List.mem_append.1 hd with hd | hd
      · exact h1 d hd
      · exact h3 d hd
    · rw [List.flatMap_append]
      exact decodeAll_append.2 ⟨r₁, r₂, h2, h4, rfl⟩

theorem Holds.unique {segments : List Bytes} {r r' : List (Mapping F)} (h : Holds segments r)
    (h' : Holds segments r') : r = r' := by
  have := h.decoded.symm.trans h'.decoded
  simpa using this

theorem holds_nil : Holds ([] : List Bytes) ([] : List (Mapping F)) := ⟨by simp, rfl⟩

theorem holds_empty : Holds [[]] ([] : List (Mapping F)) := ⟨by simp, rfl⟩

/-- What is left after the oldest segments are gone. -/
theorem Holds.drop {segments : List Bytes} {records : List (Mapping F)} (h : Holds segments records)
    (j : Nat) : ∃ gone kept, records = gone ++ kept ∧ Holds (segments.take j) gone ∧
      Holds (segments.drop j) kept := by
  rw [← List.take_append_drop j segments] at h
  obtain ⟨gone, kept, h1, h2, rfl⟩ := holds_append.1 h
  exact ⟨gone, kept, rfl, h1, h2⟩

/-- A whole line after a complete segment. -/
theorem holds_line {last line : Bytes} {entry : Mapping F} {records : List (Mapping F)}
    (hwf : (Json.obj entry).WF) (hline : encodeLine entry = .ok line) (h : Holds [last] records) :
    Holds [last ++ line] (records ++ [entry]) := by
  obtain ⟨body, rfl, hends, -, hdecode⟩ := decodeLine_encodeLine hwf hline
  have hlast := h.complete last (by simp)
  refine ⟨?_, ?_⟩
  · intro data hdata
    rw [List.mem_singleton] at hdata
    subst hdata
    exact .inr (endsWithLf_append (endsWithLf_append rfl))
  · have hd := h.decoded
    simp only [List.flatMap_cons, List.flatMap_nil, List.append_nil] at hd ⊢
    rw [splitlines_append hlast, splitlines_line hends]
    refine decodeAll_append.2 ⟨records, [entry], hd, ?_, rfl⟩
    simp [decodeAll, hdecode]

/-- A part of a line does not end with a line feed. -/
theorem incomplete_line {entry : Mapping F} (hwf : (Json.obj entry).WF) {line written last : Bytes}
    (hline : encodeLine entry = .ok line) (hpre : written <+: line) (hne : written ≠ [])
    (hpart : written ≠ line) : last ++ written ≠ [] ∧ endsWithLf (last ++ written) = false := by
  obtain ⟨body, rfl, hends, -, -⟩ := decodeLine_encodeLine hwf hline
  obtain ⟨rest, hrest⟩ := hpre
  have hbody : ∀ b ∈ written, b ≠ lf := by
    rcases List.eq_nil_or_concat rest with rfl | ⟨rest', b, rfl⟩
    · exact absurd (by simpa using hrest) hpart
    · simp only [List.concat_eq_append, ← List.append_assoc] at hrest
      have hinit := (List.append_inj' hrest rfl).1
      intro x hx
      exact (hends x (hinit ▸ List.mem_append_left _ hx)).1
  refine ⟨by simp [hne], ?_⟩
  obtain ⟨init, b, hb⟩ : ∃ init b, written = init ++ [b] := by
    rcases List.eq_nil_or_concat written with h | ⟨init, b, h⟩
    · exact absurd h hne
    · exact ⟨init, b, by simpa using h⟩
  have hblf := hbody b (by simp [hb])
  simp [endsWithLf, hb, hblf]

/-- The records after an append has stopped: with nothing written, those that retention kept; with
    the whole line written, those and the new one. -/
theorem AppendState.holds {before after : List Bytes} {limit : Nat} {written : Bytes}
    {active : Option Bytes} (h : AppendState before limit written after active)
    {records : List (Mapping F)} (hbefore : Holds before records) :
    ∃ j gone kept, j ≤ limit ∧ records = gone ++ kept ∧
      Holds (before.take j) gone ∧ Holds (before.drop j) kept ∧
      (written = [] → Holds after kept) ∧
      ∀ entry : Mapping F, (Json.obj entry).WF → encodeLine entry = .ok written →
        Holds after (kept ++ [entry]) := by
  cases h with
  | untouched j hj hactive =>
      obtain ⟨gone, kept, hrec, hgone, hkept⟩ := hbefore.drop j
      refine ⟨j, gone, kept, hj, hrec, hgone, hkept, fun _ => hkept, fun entry hwf hline => ?_⟩
      obtain ⟨text, body, -, -, hbody, -⟩ := encodeLine_eq hline
      exact absurd hbody (by simp)
  | extended j hj init last written hlast =>
      obtain ⟨gone, kept, hrec, hgone, hkept⟩ := hbefore.drop j
      obtain ⟨r₁, r₂, hinit, hlast', hsplit⟩ : ∃ r₁ r₂ : List (Mapping F), Holds init r₁ ∧
          Holds [last] r₂ ∧ kept = r₁ ++ r₂ := by
        rcases hlast with hlast | ⟨hlast, rfl⟩
        · rw [hlast] at hkept
          exact holds_append.1 hkept
        · rw [hlast] at hkept
          exact ⟨kept, [], hkept, holds_empty, by simp⟩
      refine ⟨j, gone, kept, hj, hrec, hgone, hkept, fun hnil => ?_, fun entry hwf hline => ?_⟩
      · rw [hnil, List.append_nil, hsplit]
        exact holds_append.2 ⟨r₁, r₂, hinit, hlast', rfl⟩
      · rw [hsplit, List.append_assoc]
        exact holds_append.2 ⟨r₁, r₂ ++ [entry], hinit, holds_line hwf hline hlast', rfl⟩

end Records

end Elyra.Audit
