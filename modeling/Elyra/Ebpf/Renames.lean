import Elyra.Ebpf.Collector

set_option autoImplicit false

/-! # Repeated renames

A rename is suppressed when its fingerprint was remembered within the window. What is remembered is the
last rename that was not suppressed itself, whatever became of it: it may have been refused by the
filter or dropped at a full queue. And a time before the remembered one counts as within the window,
however far it lies back. Where neither happens, every suppressed rename is covered by a queued one
(`Run.renames_covered`).

The dictionary of fingerprints is kept short by taking old ones off its front. Where the times do not go
back that forgets no rename that matters (`Run.suppresses_as_reference`). -/

namespace Elyra.Ebpf

open Elyra.Python Elyra.Counting

variable {cfg : EbpfFilterConfig} {queueSize : Int} {ok : Collector → Log → EbpfEvent → Prop}
  {c : Collector} {log : Log}

/-! ## Suppressed renames are covered -/

/-- The same rename, no more than the window away. -/
structure Covers (e₀ e : EbpfEvent) : Prop where
  rename : e₀.eventType = .fileRename
  fingerprint : e₀.fingerprint = e.fingerprint
  after : e.timestampNs ≤ e₀.timestampNs + renameDedupWindowNs
  before : e₀.timestampNs ≤ e.timestampNs + renameDedupWindowNs

/-- Every suppressed rename is covered by one that was queued before. -/
def Covered (log : Log) : Prop :=
  ∀ pre e post, log = pre ++ (e, .duplicate) :: post → ∃ e₀, (e₀, .queued) ∈ pre ∧ Covers e₀ e

/-- A rename that does not come before the remembered time by more than the window, and that is accepted
    and finds room in the queue unless it is a repeated one. -/
structure Orderly (cfg : EbpfFilterConfig) (queueSize : Int) (c : Collector) (_ : Log)
    (e : EbpfEvent) : Prop where
  not_before : e.eventType = .fileRename → ∀ previous,
    c.recentRenameEvents.get? e.fingerprint = some previous →
      previous ≤ e.timestampNs + renameDedupWindowNs
  goes_through : e.eventType = .fileRename → (∀ previous,
    c.recentRenameEvents.get? e.fingerprint = some previous →
      previous + renameDedupWindowNs < e.timestampNs) →
    cfg.accepts e c.ancestry = true ∧ queueFull queueSize c = false

/-- What is remembered was queued, and the log is covered. -/
structure Kept (c : Collector) (log : Log) : Prop where
  remembered : ∀ f t, c.recentRenameEvents.get? f = some t → ∃ e₀, (e₀, .queued) ∈ log ∧
    e₀.eventType = .fileRename ∧ e₀.fingerprint = f ∧ e₀.timestampNs = t
  covered : Covered log

theorem Covered.snoc {e : EbpfEvent} {o : Outcome} (h : Covered log)
    (he : o = .duplicate → ∃ e₀, (e₀, .queued) ∈ log ∧ Covers e₀ e) : Covered (log ++ [(e, o)]) := by
  intro pre e' post hlog
  rcases log_snoc_cases hlog with ⟨rfl, hlast⟩ | ⟨post', hlog'⟩
  · obtain ⟨rfl, ho⟩ := Prod.mk.inj hlast
    exact he ho.symm
  · exact h pre e' post' hlog'

/-- A rename that meets the condition and is no repeated one is queued. -/
theorem Orderly.queued {e : EbpfEvent} (he : Orderly cfg queueSize c log e)
    (hrename : e.eventType = .fileRename) {c' : Collector} (hnote : c.noteRename e = some c') :
    (publishEvent cfg queueSize c e).1 = .queued := by
  have hnew : ∀ previous, c.recentRenameEvents.get? e.fingerprint = some previous →
      previous + renameDedupWindowNs < e.timestampNs := by
    intro previous hget
    by_contra hle
    have hnone := noteRename_eq_none.2 ⟨hrename, note_eq_none.2 ⟨previous, hget, not_lt.1 hle⟩⟩
    rw [hnone] at hnote
    cases hnote
  obtain ⟨haccepts, hroom⟩ := he.goes_through hrename hnew
  have hexec : ¬ e.eventType = .processExec := by
    rw [hrename]
    decide
  rw [(publishEvent_of_some hnote).2.2, if_neg fun h => hexec h.1, noteExec, if_neg hexec, haccepts,
    hroom]
  rfl

/-- One event that meets the condition. -/
theorem Kept.publish {e : EbpfEvent} (h : Kept c log) (he : Orderly cfg queueSize c log e) :
    Kept (publishEvent cfg queueSize c e).2 (log ++ [(e, (publishEvent cfg queueSize c e).1)]) := by
  have hmono : ∀ {x}, x ∈ log → x ∈ log ++ [(e, (publishEvent cfg queueSize c e).1)] :=
    fun hx => List.mem_append_left _ hx
  constructor
  · intro f t hget
    cases hnote : c.noteRename e with
    | none =>
        rw [publishEvent_of_none hnote] at hget
        obtain ⟨e₀, hmem, hfields⟩ := h.remembered f t hget
        exact ⟨e₀, hmono hmem, hfields⟩
    | some c' =>
        have hrecent : (publishEvent cfg queueSize c e).2.recentRenameEvents = c'.recentRenameEvents :=
          (publishEvent_of_some hnote).1
        obtain ⟨-, -, hfields⟩ := noteRename_fields hnote
        rw [hrecent] at hget
        split at hfields
        · next hrename =>
            rcases get?_of_note hfields hget with ⟨rfl, rfl⟩ | hold
            · exact ⟨e, by rw [he.queued hrename hnote]; simp, hrename, rfl, rfl⟩
            · obtain ⟨e₀, hmem, hfields₀⟩ := h.remembered f t hold
              exact ⟨e₀, hmono hmem, hfields₀⟩
        · rw [hfields] at hget
          obtain ⟨e₀, hmem, hfields₀⟩ := h.remembered f t hget
          exact ⟨e₀, hmono hmem, hfields₀⟩
  · refine h.covered.snoc ?_
    intro hdup
    obtain ⟨hrename, hnote⟩ := noteRename_eq_none.1 (publishEvent_duplicate.1 hdup)
    obtain ⟨previous, hget, hle⟩ := note_eq_none.1 hnote
    obtain ⟨e₀, hmem, hrename₀, hfp, rfl⟩ := h.remembered _ _ hget
    exact ⟨e₀, hmem, hrename₀, hfp, hle, he.not_before hrename _ hget⟩

theorem Run.kept (h : Run cfg queueSize (Orderly cfg queueSize) c log) : Kept c log := by
  induction h with
  | start => exact ⟨(fun _ _ h => nomatch h), fun pre e post h => by simp at h⟩
  | publish _ e he ih => exact ih.publish he
  | get _ ih => exact ⟨ih.remembered, ih.covered⟩

/-- **No rename is lost to the suppression** where each one goes through or is a repeated one, and none
    comes long before its like. -/
theorem Run.renames_covered (cfg : EbpfFilterConfig) (queueSize : Int) (c : Collector) (log : Log)
    (h : Run cfg queueSize (Orderly cfg queueSize) c log) : Covered log := h.kept.covered

/-- No filter. -/
def openConfig : EbpfFilterConfig := ⟨∅, ∅, ∅, true, 4096⟩

/-- `mv` renames `old.txt`. -/
def renameAt (t : Nat) : EbpfEvent where
  eventType := .fileRename
  timestampNs := t
  pid := 7
  tgid := 7
  ppid := 1
  uid := 1000
  comm := py "mv"
  executableIdentifier := some (py "old.txt")
  device := some 0
  inode := some 0

/-- Another event of the process. -/
def writeAt (t : Nat) : EbpfEvent :=
  { renameAt t with eventType := .fileWrite, executableIdentifier := none }

/-- The two renames of one system call. -/
theorem covered_pair : Covered [(renameAt 1000000000, .queued), (renameAt 1005000000, .duplicate)] := by
  have hfirst : Orderly openConfig 4096 Collector.empty [] (renameAt 1000000000) :=
    ⟨(fun _ _ h => nomatch h), fun _ _ => by decide +kernel⟩
  have hrun : Run openConfig 4096 (Orderly openConfig 4096)
      (publishEvent openConfig 4096 .empty (renameAt 1000000000)).2
      [(renameAt 1000000000, .queued)] := Run.start.snoc hfirst (by decide +kernel)
  have hget : (publishEvent openConfig 4096 .empty (renameAt 1000000000)).2.recentRenameEvents.get?
      (renameAt 1005000000).fingerprint = some 1000000000 := by decide +kernel
  have hsecond : Orderly openConfig 4096
      (publishEvent openConfig 4096 .empty (renameAt 1000000000)).2
      [(renameAt 1000000000, .queued)] (renameAt 1005000000) := by
    refine ⟨fun _ previous h => ?_, fun _ h => ?_⟩
    · obtain rfl := Option.some.inj (hget.symm.trans h)
      decide
    · exact absurd (h _ hget) (by decide)
  exact Run.renames_covered openConfig 4096 _ _ (hrun.snoc hsecond (by decide +kernel))

/-- A rename that was dropped at a full queue suppresses the next one, and one that was queued
    suppresses a rename of a second before. -/
theorem renames_lost :
    (∃ c, Run openConfig 1 (fun _ _ _ => True) c [(writeAt 0, .queued), (renameAt 1000, .dropped),
        (renameAt 5000000, .duplicate)] ∧
      ¬ Covered [(writeAt 0, .queued), (renameAt 1000, .dropped), (renameAt 5000000, .duplicate)]) ∧
    ∃ c, Run openConfig 4096 (fun _ _ _ => True) c
        [(renameAt 1000000000, .queued), (renameAt 0, .duplicate)] ∧
      ¬ Covered [(renameAt 1000000000, .queued), (renameAt 0, .duplicate)] := by
  have hdropped : (runFrom openConfig 1 (.empty, []) [some (writeAt 0), some (renameAt 1000), none,
      some (renameAt 5000000)]).2 =
      [(writeAt 0, .queued), (renameAt 1000, .dropped), (renameAt 5000000, .duplicate)] := by rfl
  have hbefore : (runFrom openConfig 4096 (.empty, []) [some (renameAt 1000000000),
      some (renameAt 0)]).2 = [(renameAt 1000000000, .queued), (renameAt 0, .duplicate)] := by rfl
  refine ⟨⟨_, hdropped ▸ run_runFrom _ .start, ?_⟩, _, hbefore ▸ run_runFrom _ .start, ?_⟩
  · intro h
    obtain ⟨e₀, hmem, hcovers⟩ := h [(writeAt 0, .queued), (renameAt 1000, .dropped)] _ [] rfl
    rcases List.mem_cons.1 hmem with hmem | hmem
    · obtain ⟨rfl, -⟩ := Prod.mk.inj hmem
      exact absurd hcovers.rename (by decide)
    · cases (Prod.mk.inj (List.mem_singleton.1 hmem)).2
  · intro h
    obtain ⟨e₀, hmem, hcovers⟩ := h [(renameAt 1000000000, .queued)] _ [] rfl
    obtain ⟨rfl, -⟩ := Prod.mk.inj (List.mem_singleton.1 hmem)
    exact absurd hcovers.before (by decide)

/-! ## The memory of fingerprints -/

/-- A rename as a memory that forgets nothing takes it; `none` for a repeated one. -/
def referenceNote (m : Fingerprint → Option Nat) (e : EbpfEvent) :
    Option (Fingerprint → Option Nat) :=
  if e.eventType = .fileRename then
    noteForever renameDedupWindowNs m e.fingerprint e.timestampNs
  else some m

/-- What is remembered after some events, if nothing is forgotten. -/
def referenceMemory (es : List EbpfEvent) : Fingerprint → Option Nat :=
  es.foldl (fun m e => (referenceNote m e).getD m) fun _ => none

theorem referenceMemory_snoc (es : List EbpfEvent) (e : EbpfEvent) : referenceMemory (es ++ [e]) =
    (referenceNote (referenceMemory es) e).getD (referenceMemory es) := by
  rw [referenceMemory, List.foldl_append]
  rfl

/-- The log suppresses what the reference suppresses. -/
def AsReference (log : Log) : Prop :=
  ∀ pre e o post, log = pre ++ (e, o) :: post →
    (o = .duplicate ↔ referenceNote (referenceMemory (eventsOf pre)) e = none)

/-- After a rename that was not suppressed, nothing remembered is out of its window. -/
def WithinWindow (c : Collector) (log : Log) : Prop :=
  ∀ pre e o, log = pre ++ [(e, o)] → e.eventType = .fileRename → o ≠ .duplicate →
    ∀ f t, c.recentRenameEvents.get? f = some t →
      t ≤ e.timestampNs ∧ e.timestampNs ≤ t + renameDedupWindowNs

/-- The collector's memory agrees with the reference at any time no event of the log is after. -/
structure Remembers (c : Collector) (log : Log) : Prop where
  exact : ∀ now, (∀ e ∈ eventsOf log, e.timestampNs ≤ now) →
    Exact renameDedupWindowNs c.recentRenameEvents (referenceMemory (eventsOf log)) now
  asReference : AsReference log
  withinWindow : WithinWindow c log

/-- What one event does to the memory and to the reference. -/
structure Step (c c' : Collector) (m : Fingerprint → Option Nat) (e : EbpfEvent) : Prop where
  same : c.noteRename e = none ↔ referenceNote m e = none
  exact : Exact renameDedupWindowNs c'.recentRenameEvents ((referenceNote m e).getD m) e.timestampNs
  window : e.eventType = .fileRename → c.noteRename e ≠ none → ∀ f t,
    c'.recentRenameEvents.get? f = some t →
      t ≤ e.timestampNs ∧ e.timestampNs ≤ t + renameDedupWindowNs

theorem step_of_exact {m : Fingerprint → Option Nat} {e : EbpfEvent}
    (h : Exact renameDedupWindowNs c.recentRenameEvents m e.timestampNs) :
    Step c (publishEvent cfg queueSize c e).2 m e := by
  have hrepeat := h.isRepeat_eq (k := e.fingerprint) le_rfl
  cases hnote : c.noteRename e with
  | none =>
      obtain ⟨hrename, hnone⟩ := noteRename_eq_none.1 hnote
      have hreference : referenceNote m e = none := by
        rw [note_eq_none, ← isRepeat_eq_true, hrepeat] at hnone
        rw [referenceNote, if_pos hrename, noteForever, if_pos hnone]
      rw [publishEvent_of_none hnote]
      refine ⟨iff_of_true hnote hreference, ?_, fun _ hne => absurd hnote hne⟩
      rw [hreference]
      exact h
  | some c' =>
      have hrecent : (publishEvent cfg queueSize c e).2.recentRenameEvents = c'.recentRenameEvents :=
        (publishEvent_of_some hnote).1
      obtain ⟨-, -, hfields⟩ := noteRename_fields hnote
      by_cases hrename : e.eventType = .fileRename
      · rw [if_pos hrename] at hfields
        obtain ⟨hexact, hwindow⟩ := h.note le_rfl hfields
        have hreference : referenceNote m e =
            some (Function.update m e.fingerprint (some e.timestampNs)) := by
          have hnew := (note_eq_some hfields).1
          rw [hrepeat] at hnew
          rw [referenceNote, if_pos hrename, noteForever, hnew]
          rfl
        refine ⟨by rw [hnote, hreference]; simp, ?_, ?_⟩
        · rw [hrecent, hreference]
          exact hexact
        · intro _ _ f t hget
          rw [hrecent] at hget
          exact hwindow f t hget
      · rw [if_neg hrename] at hfields
        have hreference : referenceNote m e = some m := if_neg hrename
        refine ⟨by rw [hnote, hreference]; simp, ?_, fun hr => absurd hr hrename⟩
        rw [hrecent, hfields, hreference]
        exact h

/-- One event that no earlier one is after. -/
theorem Remembers.publish (h : Remembers c log) {e : EbpfEvent}
    (hpast : ∀ e' ∈ eventsOf log, e'.timestampNs ≤ e.timestampNs) :
    Remembers (publishEvent cfg queueSize c e).2
      (log ++ [(e, (publishEvent cfg queueSize c e).1)]) := by
  have hstep : Step c (publishEvent cfg queueSize c e).2 (referenceMemory (eventsOf log)) e :=
    step_of_exact (h.exact _ hpast)
  refine ⟨?_, ?_, ?_⟩
  · intro now hnow
    rw [eventsOf_snoc] at hnow ⊢
    rw [referenceMemory_snoc]
    exact hstep.exact.mono (hnow e (by simp))
  · intro pre e' o post hlog
    rcases log_snoc_cases hlog with ⟨rfl, hlast⟩ | ⟨post', hlog'⟩
    · obtain ⟨rfl, rfl⟩ := Prod.mk.inj hlast
      rw [publishEvent_duplicate, hstep.same]
    · exact h.asReference pre e' o post' hlog'
  · intro pre e' o hlog hrename hnew
    obtain ⟨-, hlast⟩ := List.append_inj' hlog rfl
    obtain ⟨rfl, rfl⟩ := Prod.mk.inj (List.singleton_inj.1 hlast)
    exact hstep.window hrename fun hnone => hnew (publishEvent_duplicate.2 hnone)

theorem Run.remembers (h : Run cfg queueSize ok c log)
    (htimes : (eventsOf log).Pairwise fun a b => a.timestampNs ≤ b.timestampNs) :
    Remembers c log := by
  induction h with
  | start =>
      exact ⟨fun _ _ => Exact.empty, (fun pre e o post h => by simp at h),
        fun pre e o h => by simp at h⟩
  | publish _ e _ ih =>
      rw [eventsOf_snoc, List.pairwise_append] at htimes
      obtain ⟨hlog, -, hpast⟩ := htimes
      exact (ih hlog).publish fun e' he' => hpast e' he' e (List.mem_singleton_self e)
  | get _ ih => exact ⟨(ih htimes).exact, (ih htimes).asReference, (ih htimes).withinWindow⟩

/-- **Forgetting is exact.** Where the times do not go back, the renames suppressed are those that a
    memory of all fingerprints suppresses, and what is remembered is within the window. -/
theorem Run.suppresses_as_reference (cfg : EbpfFilterConfig) (queueSize : Int) (c : Collector)
    (log : Log) (h : Run cfg queueSize (fun _ _ _ => True) c log)
    (htimes : (eventsOf log).Pairwise fun a b => a.timestampNs ≤ b.timestampNs) :
    AsReference log ∧ WithinWindow c log :=
  ⟨(h.remembers htimes).asReference, (h.remembers htimes).withinWindow⟩

/-- Two renames of one system call and one of a second later. -/
theorem suppresses_as_reference_three :
    AsReference [(renameAt 0, .queued), (renameAt 5000000, .duplicate),
        (renameAt 1000000000, .queued)] ∧
      WithinWindow (runFrom openConfig 4096 (.empty, []) [some (renameAt 0), some (renameAt 5000000),
          some (renameAt 1000000000)]).1
        [(renameAt 0, .queued), (renameAt 5000000, .duplicate), (renameAt 1000000000, .queued)] :=
  Run.suppresses_as_reference openConfig 4096 _ _
    (run_runFrom [some (renameAt 0), some (renameAt 5000000), some (renameAt 1000000000)] .start)
    (by decide)

end Elyra.Ebpf
