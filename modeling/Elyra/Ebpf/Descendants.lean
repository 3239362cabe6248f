import Elyra.Ebpf.Collector

set_option autoImplicit false

/-! # Descendants of monitored processes

The filter follows the parents of an event's process to a monitored one, in a map that has a parent for
each process that was executed. A process that exits is taken out of the map, and with it the way of
everything below it: the events of a process may be accepted first and refused later. As long as no
process on the way exits, they stay accepted (`Run.stays_monitored`).

The map is cut at `max_tracked_processes`. With no more processes than that it holds all of them, and is
the map without a bound, `lineage`. -/

namespace Elyra.Ebpf

open Elyra.Python Elyra.Counting

variable {cfg : EbpfFilterConfig} {queueSize : Int} {ok : Collector → Log → EbpfEvent → Prop}
  {c : Collector} {log : Log} {es : List EbpfEvent} {x p : Nat}

/-! ## The map without a bound -/

/-- A thread of the process exits. The collector takes the process for exited. -/
def EbpfEvent.exits (e : EbpfEvent) (x : Nat) : Prop := e.eventType = .processExit ∧ e.tgid = x

/-- The first thread of the process exits. -/
def EbpfEvent.ends (e : EbpfEvent) (x : Nat) : Prop := e.exits x ∧ e.pid = x

/-- `noteExec` without the bound. -/
def born (parents : Dict Nat Nat) (e : EbpfEvent) : Dict Nat Nat :=
  if e.eventType = .processExec then parents.setLast e.tgid e.ppid else parents

/-- The parent of each process that was executed and has not exited. -/
def lineage (es : List EbpfEvent) : Dict Nat Nat :=
  es.foldl (fun parents e => noteExit (born parents e) e) .empty

theorem lineage_snoc (es : List EbpfEvent) (e : EbpfEvent) :
    lineage (es ++ [e]) = noteExit (born (lineage es) e) e := by
  rw [lineage, List.foldl_append]
  rfl

theorem noteExit_of_ne {parents : Dict Nat Nat} {e : EbpfEvent} (h : e.eventType ≠ .processExit) :
    noteExit parents e = parents := if_neg h

/-- An execution is in the map when it has been noted. -/
theorem lineage_snoc_of_ne {e : EbpfEvent} (h : e.eventType ≠ .processExit) :
    lineage (es ++ [e]) = born (lineage es) e := by
  rw [lineage_snoc, noteExit_of_ne h]

/-- No more processes than the collector keeps track of are alive at any time. -/
def Bounded (cfg : EbpfFilterConfig) (es : List EbpfEvent) : Prop :=
  ∀ es', es' <+: es → ((lineage es').size : Int) ≤ cfg.maxTrackedProcesses

theorem Bounded.of_prefix {es' : List EbpfEvent} (h : Bounded cfg es) (hpre : es' <+: es) :
    Bounded cfg es' := fun _ hes => h _ (hes.trans hpre)

theorem bounded_of_inits
    (h : ∀ es' ∈ es.inits, ((lineage es').size : Int) ≤ cfg.maxTrackedProcesses) : Bounded cfg es :=
  fun es' hes => h es' ((List.mem_inits es' es).2 hes)

/-- Within the bound no entry is cut. -/
theorem noteExec_eq_born {e : EbpfEvent} (h : Bounded cfg (es ++ [e])) :
    noteExec cfg (lineage es) e = born (lineage es) e := by
  rw [noteExec, born]
  split
  · next hexec =>
      refine Dict.trim_of_le ?_
      have hsize := h _ List.prefix_rfl
      rw [lineage_snoc_of_ne (by rw [hexec]; decide), born, if_pos hexec] at hsize
      omega
  · rfl

/-- The collector's map is the one without a bound. -/
theorem Run.ancestry_eq (h : Run cfg queueSize ok c log) (hbound : Bounded cfg (eventsOf log)) :
    c.ancestry = lineage (eventsOf log) := by
  induction h with
  | start => rfl
  | publish _ e _ ih =>
      rw [eventsOf_snoc] at hbound ⊢
      rw [publishEvent_ancestry, ih (hbound.of_prefix (List.prefix_append _ _)),
        noteExec_eq_born hbound, lineage_snoc]
  | get _ ih => exact ih hbound

/-! ## Entries stay -/

/-- The events of a process name one parent until its end. -/
def StablePpid (es : List EbpfEvent) : Prop :=
  ∀ pre a mid b post, es = pre ++ a :: (mid ++ b :: post) → a.tgid = b.tgid →
    (∀ e ∈ a :: mid, ¬ e.ends a.tgid) → a.ppid = b.ppid

theorem StablePpid.of_append {rest : List EbpfEvent} (h : StablePpid (es ++ rest)) :
    StablePpid es := by
  intro pre a mid b post hes
  exact h pre a mid b (post ++ rest) (by simp [hes])

/-- Where two events of a process never name different parents. -/
theorem stablePpid_of_same (h : ∀ a ∈ es, ∀ b ∈ es, a.tgid = b.tgid → a.ppid = b.ppid) :
    StablePpid es := by
  intro pre a mid b post hes hsame _
  exact h a (by simp [hes]) b (by simp [hes]) hsame

theorem get?_born (parents : Dict Nat Nat) (e : EbpfEvent) (x : Nat) :
    (born parents e).get? x =
      if e.eventType = .processExec ∧ x = e.tgid then some e.ppid else parents.get? x := by
  rw [born]
  split
  · next hexec => simp only [Dict.get?_setLast, hexec, true_and]
  · next hother => rw [if_neg fun h => hother h.1]

theorem get?_noteExit (parents : Dict Nat Nat) {e : EbpfEvent} (h : ¬ e.exits x) :
    (noteExit parents e).get? x = parents.get? x := by
  rw [noteExit]
  split
  · next hexit => exact Dict.get?_pop_ne _ fun hx => h ⟨hexit, hx.symm⟩
  · rfl

/-- What is left after an exit was there before, and is of another process. -/
theorem get?_of_noteExit {parents : Dict Nat Nat} {e : EbpfEvent}
    (h : (noteExit parents e).get? x = some p) : parents.get? x = some p ∧ ¬ e.exits x := by
  by_cases hexit : e.exits x
  · obtain ⟨hexit, rfl⟩ := hexit
    rw [noteExit, if_pos hexit, Dict.get?_pop_self] at h
    cases h
  · exact ⟨get?_noteExit parents hexit ▸ h, hexit⟩

/-- An entry is from an execution since which the process has not exited. -/
theorem execution_of_lineage (h : (lineage es).get? x = some p) :
    ∃ pre a post, es = pre ++ a :: post ∧ a.tgid = x ∧ a.ppid = p ∧ ∀ e ∈ a :: post, ¬ e.exits x := by
  induction es using List.reverseRecOn with
  | nil => cases h
  | append_singleton es e ih =>
      rw [lineage_snoc] at h
      obtain ⟨hborn, hexit⟩ := get?_of_noteExit h
      rw [get?_born] at hborn
      split at hborn
      · next hnew => exact ⟨es, e, [], rfl, hnew.2.symm, Option.some.inj hborn, by simpa using hexit⟩
      · obtain ⟨pre, a, post, rfl, htgid, hppid, halive⟩ := ih hborn
        refine ⟨pre, a, post ++ [e], by simp, htgid, hppid, ?_⟩
        intro b hb
        rw [← List.cons_append, List.mem_append, List.mem_singleton] at hb
        rcases hb with hb | rfl
        · exact halive b hb
        · exact hexit

/-- An execution does not change the parent of a process that is in the map. -/
theorem born_keeps {e : EbpfEvent} (hstable : StablePpid (es ++ [e]))
    (h : (lineage es).get? x = some p) : (born (lineage es) e).get? x = some p := by
  rw [get?_born]
  split
  · next hnew =>
      obtain ⟨pre, a, post, rfl, htgid, rfl, halive⟩ := execution_of_lineage h
      rw [← htgid] at halive
      have hppid : a.ppid = e.ppid :=
        hstable pre a post e [] (by simp) (htgid.trans hnew.2) fun b hb hends => halive b hb hends.1
      rw [hppid]
  · exact h

/-- The parent of a process is in the map until it exits. -/
theorem lineage_keeps {rest : List EbpfEvent} (hstable : StablePpid (es ++ rest))
    (h : (lineage es).get? x = some p) (halive : ∀ e ∈ rest, ¬ e.exits x) :
    (lineage (es ++ rest)).get? x = some p := by
  induction rest using List.reverseRecOn with
  | nil => rwa [List.append_nil]
  | append_singleton rest e ih =>
      rw [← List.append_assoc] at hstable ⊢
      have hbefore : (lineage (es ++ rest)).get? x = some p :=
        ih hstable.of_append fun b hb => halive b (List.mem_append_left _ hb)
      rw [lineage_snoc, get?_noteExit _ (halive e (by simp))]
      exact born_keeps hstable hbefore

/-! ## The way to a monitored process -/

theorem parentIn_congr {parents parents' : Dict Nat Nat}
    (h : parents'.get? x = parents.get? x) : parentIn parents' x = parentIn parents x := by
  rw [parentIn, parentIn, h]

theorem get?_of_parentIn {parents : Dict Nat Nat} (h : parentIn parents x = some p) :
    ∃ q, parents.get? x = some q := by
  cases hget : parents.get? x with
  | none =>
      rw [parentIn, hget] at h
      cases h
  | some q => exact ⟨q, rfl⟩

/-- The loop of the filter finds a monitored process where one is on the way. -/
theorem descends_iff {ppid : Nat} {parents : Dict Nat Nat} : cfg.descends ppid parents = true ↔
    0 < ppid ∧ ∃ way, Passes (parentIn parents) cfg.monitors ppid way := by
  unfold EbpfFilterConfig.descends positive
  split
  · next hpos =>
      rw [and_iff_right hpos]
      have hdom : ∀ a b, parentIn parents a = some b → a ∈ (keys parents.items).toFinset := by
        intro a b hab
        obtain ⟨q, hq⟩ := get?_of_parentIn hab
        exact List.mem_toFinset.2 (List.mem_map_of_mem (Dict.mem_items.2 hq))
      exact search_iff hdom (Nat.lt_succ_of_le (Dict.card_keys_le parents))
  · next hzero => exact iff_of_false (by simp [search]) fun h => hzero h.1

/-- A filter that follows descendants, and looks at nothing else. -/
structure Descending (cfg : EbpfFilterConfig) : Prop where
  monitored : cfg.monitoredTgids ≠ ∅
  descendants : cfg.includeDescendants = true
  no_uids : cfg.monitoredUids = ∅

/-- What such a filter accepts from a process that is not monitored itself. -/
theorem Descending.accepts_iff (h : Descending cfg) {e : EbpfEvent} {parents : Dict Nat Nat}
    (hnot : cfg.monitors e.tgid = false ∧ cfg.monitors e.pid = false) :
    cfg.accepts e parents = true ↔
      cfg.ignores e = false ∧ cfg.descends e.ppid parents = true := by
  have huid : cfg.uidOk e = true := decide_eq_true (.inl h.no_uids)
  rw [EbpfFilterConfig.accepts, huid, if_neg h.monitored, hnot.1, hnot.2, h.descendants]
  cases cfg.ignores e <;> simp

/-- It accepts no less from one that is. -/
theorem Descending.accepts (h : Descending cfg) {e : EbpfEvent} {parents : Dict Nat Nat}
    (hignores : cfg.ignores e = false) (hdescends : cfg.descends e.ppid parents = true) :
    cfg.accepts e parents = true := by
  have huid : cfg.uidOk e = true := decide_eq_true (.inl h.no_uids)
  rw [EbpfFilterConfig.accepts, huid, if_neg h.monitored, h.descendants, hignores, hdescends]
  simp

/-! ## Events of a descendant -/

/-- What the filter lets through is queued, or dropped at a full queue. -/
theorem accepts_of_passed {e : EbpfEvent} {o : Outcome} (h : (publishEvent cfg queueSize c e).1 = o)
    (ho : o = .queued ∨ o = .dropped) : cfg.accepts e (noteExec cfg c.ancestry e) = true := by
  subst h
  cases hnote : c.noteRename e with
  | none =>
      rw [publishEvent_of_none hnote] at ho
      rcases ho with ho | ho <;> cases ho
  | some c' =>
      rw [(publishEvent_of_some hnote).2.2] at ho
      by_contra hrejected
      rw [if_pos (Bool.eq_false_iff.2 hrejected)] at ho
      by_cases hraise : e.eventType = .processExec ∧ cfg.maxTrackedProcesses < 0
      · rw [if_pos hraise] at ho
        rcases ho with ho | ho <;> cases ho
      · rw [if_neg hraise] at ho
        rcases ho with ho | ho <;> cases ho

/-- What the filter accepts is not refused. -/
theorem not_refused {e : EbpfEvent} (hmax : 0 ≤ cfg.maxTrackedProcesses)
    (h : cfg.accepts e (noteExec cfg c.ancestry e) = true) :
    (publishEvent cfg queueSize c e).1 ≠ .rejected ∧
      (publishEvent cfg queueSize c e).1 ≠ .raised := by
  cases hnote : c.noteRename e with
  | none =>
      rw [publishEvent_of_none hnote]
      exact ⟨nofun, nofun⟩
  | some c' =>
      rw [(publishEvent_of_some hnote).2.2, if_neg fun hraise => absurd hraise.2 (not_lt.2 hmax), h]
      cases queueFull queueSize c <;> decide

/-- An event that passed the filter because its process descends from a monitored one, and a later event
    of the process, before its end. -/
structure Followed (cfg : EbpfFilterConfig) (log pre : Log) (e : EbpfEvent) (mid : Log)
    (e' : EbpfEvent) (o' : Outcome) : Prop where
  passed : ∃ o post, log = pre ++ (e, o) :: (mid ++ (e', o') :: post) ∧
    (o = .queued ∨ o = .dropped)
  not_monitored : cfg.monitors e.tgid = false ∧ cfg.monitors e.pid = false
  same : e'.tgid = e.tgid
  alive : ∀ x ∈ e :: eventsOf mid, ¬ x.ends e.tgid

/-- The events of a descendant are not refused once one of them has passed. A repeated rename is not
    shown to the filter. -/
def StaysMonitored (cfg : EbpfFilterConfig) (log : Log) : Prop :=
  ∀ pre e mid e' o', Followed cfg log pre e mid e' o' → o' ≠ .rejected ∧ o' ≠ .raised

/-- From the first event to the later one no process on the way to the monitored one exits, and the thread
    of the later event is not ignored. -/
structure WayKept (cfg : EbpfFilterConfig) (pre : Log) (e : EbpfEvent) (mid : Log)
    (e' : EbpfEvent) : Prop where
  kept : ∀ way, Passes (parentIn (born (lineage (eventsOf pre)) e)) cfg.monitors e.ppid way →
    ∀ x ∈ e :: eventsOf mid, x.eventType = .processExit → x.tgid ∉ way
  not_ignored : (e'.pid : Int) ∉ cfg.ignoredTgids

/-- **A descendant stays monitored** while no process on its way to the monitored one exits. -/
theorem Run.stays_monitored (cfg : EbpfFilterConfig) (queueSize : Int) (c : Collector) (log : Log)
    (h : Run cfg queueSize (fun _ _ _ => True) c log) (hcfg : Descending cfg)
    (hbound : Bounded cfg (eventsOf log)) (hstable : StablePpid (eventsOf log))
    (pre : Log) (e : EbpfEvent) (mid : Log) (e' : EbpfEvent) (o' : Outcome)
    (hfollowed : Followed cfg log pre e mid e' o') (hway : WayKept cfg pre e mid e') :
    o' ≠ .rejected ∧ o' ≠ .raised := by
  obtain ⟨⟨o, post, hlog, ho⟩, hnot, hsame, halive⟩ := hfollowed
  have hevents : eventsOf log =
      (eventsOf pre ++ [e] ++ eventsOf mid ++ [e']) ++ eventsOf post := by
    simp [hlog, eventsOf]
  have hlater : eventsOf (pre ++ (e, o) :: mid) = eventsOf pre ++ [e] ++ eventsOf mid := by
    simp [eventsOf]
  rw [hevents] at hbound hstable
  have hbound' := hbound.of_prefix (List.prefix_append _ _)
  have hstable' := hstable.of_append
  -- the map in which the first event was looked up
  obtain ⟨c₀, hrun₀, hout₀⟩ := h.split hlog
  have hbound₀ : Bounded cfg (eventsOf pre ++ [e]) :=
    hbound'.of_prefix ((List.prefix_append _ _).trans (List.prefix_append _ _))
  have hmap₀ : noteExec cfg c₀.ancestry e = born (lineage (eventsOf pre)) e := by
    rw [hrun₀.ancestry_eq (hbound₀.of_prefix (List.prefix_append _ _)), noteExec_eq_born hbound₀]
  -- and that of the later one
  have hlog₁ : log = (pre ++ (e, o) :: mid) ++ (e', o') :: post := by rw [hlog]; simp
  obtain ⟨c₁, hrun₁, hout₁⟩ := h.split hlog₁
  have hmap₁ : noteExec cfg c₁.ancestry e' =
      born (lineage (eventsOf pre ++ [e] ++ eventsOf mid)) e' := by
    rw [← hlater] at hbound' ⊢
    rw [hrun₁.ancestry_eq (hbound'.of_prefix (List.prefix_append _ _)), noteExec_eq_born hbound']
  -- the way from the first event leads to the monitored process from the later one too
  have haccepts := accepts_of_passed hout₀ ho
  rw [hmap₀, hcfg.accepts_iff hnot, descends_iff] at haccepts
  obtain ⟨hignores, hpos, way, hpasses⟩ := haccepts
  have hppid : e'.ppid = e.ppid :=
    (hstable' (eventsOf pre) e (eventsOf mid) e' [] (by simp) hsame.symm halive).symm
  have hpasses' : Passes (parentIn (born (lineage (eventsOf pre ++ [e] ++ eventsOf mid)) e'))
      cfg.monitors e'.ppid way := by
    rw [hppid]
    refine hpasses.congr ?_
    intro y hy
    obtain ⟨z, hz⟩ := hpasses.next_of_mem hy
    obtain ⟨q, hq⟩ := get?_of_parentIn hz
    have hexits : ∀ x ∈ e :: eventsOf mid, ¬ x.exits y := by
      rintro x hx ⟨hexit, rfl⟩
      exact hway.kept way hpasses x hx hexit hy
    obtain ⟨hexit, hexits⟩ := List.forall_mem_cons.1 hexits
    have hlineage : (lineage (eventsOf pre ++ [e])).get? y = some q := by
      rw [lineage_snoc, get?_noteExit _ hexit, hq]
    have hkeeps := lineage_keeps hstable'.of_append hlineage hexits
    exact parentIn_congr ((born_keeps hstable' hkeeps).trans hq.symm)
  have hignores' : cfg.ignores e' = false := by
    rw [EbpfFilterConfig.ignores, decide_eq_false_iff_not] at hignores ⊢
    rw [hsame]
    exact fun h => h.elim (fun htgid => hignores (.inl htgid)) hway.not_ignored
  have hmax : 0 ≤ cfg.maxTrackedProcesses := le_trans (Int.natCast_nonneg _)
    (hbound [] List.nil_prefix)
  rw [← hout₁]
  refine not_refused hmax (hcfg.accepts hignores' ?_)
  rw [hmap₁]
  exact descends_iff.2 ⟨hppid ▸ hpos, way, hpasses'⟩

/-- Process 10 is monitored. -/
def monitorTen : EbpfFilterConfig := ⟨∅, {10}, ∅, true, 4096⟩

/-- An event of a process. -/
def processEvent (kind : EventType) (tgid ppid : Nat) : EbpfEvent where
  eventType := kind
  timestampNs := 0
  pid := tgid
  tgid := tgid
  ppid := ppid
  uid := 1000
  comm := py "sh"

/-- Process 20 is a child of the monitored one and 30 a child of it. A process exits, and 30 writes. -/
def familyEvents (exiting parent : Nat) : List EbpfEvent :=
  [processEvent .processExec 20 10, processEvent .processExec 30 20,
    processEvent .processExit exiting parent, processEvent .fileWrite 30 20]

/-- The events of a family, with the ways the last two end. -/
def familyLog (exiting parent : Nat) (exit write : Outcome) : Log :=
  (familyEvents exiting parent).zip [.queued, .queued, exit, write]

/-- Process 30 has not ended when it writes. -/
theorem familyLog_followed {exiting parent : Nat} {exit write : Outcome} (hne : exiting ≠ 30) :
    Followed monitorTen (familyLog exiting parent exit write)
      [(processEvent .processExec 20 10, .queued)] (processEvent .processExec 30 20)
      [(processEvent .processExit exiting parent, exit)] (processEvent .fileWrite 30 20) write := by
  refine ⟨⟨.queued, [], rfl, .inl rfl⟩, by decide, rfl, ?_⟩
  rintro x hx ⟨⟨hexit, htgid⟩, -⟩
  rcases List.mem_cons.1 hx with rfl | hx
  · cases hexit
  · rw [List.mem_singleton.1 hx] at htgid
    exact hne htgid

/-- While process 20 is alive the events of 30 pass: the run of a family, in which another process exits,
    neither refuses the write of 30 nor raises at it. -/
theorem stays_monitored_family :
    ∃ write, (runFrom monitorTen 4096 (.empty, []) ((familyEvents 99 1).map some)).2 =
        familyLog 99 1 .rejected write ∧ write ≠ .rejected ∧ write ≠ .raised := by
  have hlog : (runFrom monitorTen 4096 (.empty, []) ((familyEvents 99 1).map some)).2 =
      familyLog 99 1 .rejected .queued := rfl
  refine ⟨.queued, hlog, Run.stays_monitored monitorTen 4096 _ (familyLog 99 1 .rejected .queued)
    (hlog ▸ run_runFrom _ .start) ⟨by decide, rfl, rfl⟩ (bounded_of_inits (by decide +kernel))
    (stablePpid_of_same (by decide +kernel)) _ _ _ _ .queued (familyLog_followed (by decide))
    ⟨?_, by decide⟩⟩
  intro way hway x hx hexit hmem
  obtain ⟨z, hz⟩ := hway.next_of_mem hmem
  rcases List.mem_cons.1 hx with rfl | hx
  · cases hexit
  · have hnone : parentIn (born (lineage [processEvent .processExec 20 10])
        (processEvent .processExec 30 20)) 99 = none := by decide +kernel
    rw [List.mem_singleton.1 hx] at hz
    cases hnone.symm.trans hz

/-- When process 20 exits, the events of 30 are refused. -/
theorem descendant_refused :
    ∃ c log, Run monitorTen 4096 (fun _ _ _ => True) c log ∧ Descending monitorTen ∧
      Bounded monitorTen (eventsOf log) ∧ StablePpid (eventsOf log) ∧
      ¬ StaysMonitored monitorTen log := by
  have hlog : (runFrom monitorTen 4096 (.empty, []) ((familyEvents 20 10).map some)).2 =
      familyLog 20 10 .queued .rejected := rfl
  refine ⟨_, familyLog 20 10 .queued .rejected, hlog ▸ run_runFrom _ .start, ⟨by decide, rfl, rfl⟩,
    bounded_of_inits (by decide +kernel), stablePpid_of_same (by decide +kernel), ?_⟩
  intro hstays
  exact (hstays _ _ _ _ _ (familyLog_followed (by decide))).1 rfl

end Elyra.Ebpf
