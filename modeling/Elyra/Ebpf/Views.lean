import Elyra.Correlation.PidReuse
import Elyra.Ebpf.Aggregator

set_option autoImplicit false
set_option linter.unusedSectionVars false

/-! # Two counts of the files of a process

The daemon hands each event to the telemetry and to the correlation engine. The telemetry keeps the file
key of every event that has one, and the engine only those of the writes. A rename has a key too, so the
telemetry counts it: the counts agree as long as the key of every other event was written
(`views_agree_iff`). -/

namespace Elyra.Ebpf

open Elyra.Python Elyra.Correlation Elyra.Counting

/-! ## The counters and the events -/

section Data

variable {T F : Type}

/-- The two counters of the daemon. -/
structure Views (T F : Type) where
  telemetry : RuntimeTelemetryAggregator T F
  correlation : Engine T F

/-- The file key of a write. -/
def EbpfEvent.writtenKey (e : EbpfEvent) : Option PyStr :=
  if e.eventType = .fileWrite then e.distinctFileKey else none

/-- The files of the live state of a process; none where there is no state. -/
def filesOf (engine : Engine T F) (t : Nat) : List PyStr :=
  ((engine.states.get? t).map (·.distinctFiles)).getD []

/-- No exec of the process was seen. -/
def NoExec (engine : Engine T F) (t : Nat) : Prop :=
  ∀ s, engine.states.get? t = some s → s.execTimestampNs = none

/-- The events of one process from its first one, before any exit and any second exec. -/
structure ProcessEvents (limits : TelemetryLimits T) (t : Nat) (es : List EbpfEvent) : Prop where
  tgid : ∀ e ∈ es, e.tgid = t
  no_exit : ∀ e ∈ es, e.eventType ≠ .processExit
  one_exec : ∀ pre e post, es = pre ++ e :: post → e.eventType = .processExec →
    ∀ e' ∈ pre, e'.eventType ≠ .processExec
  below_cap : ((distinct (es.map (·.distinctFileKey))).length : Int) ≤
    limits.maxDistinctFilesPerProcess

/-- The views have followed a process. -/
structure Follows (t : Nat) (done : List EbpfEvent) (v : Views T F) : Prop where
  keyed : Keyed v.correlation
  telemetry : ((v.telemetry.states.get? (t : Int)).map (·.distinctFiles)).getD [] =
    distinct (done.map (·.distinctFileKey))
  correlation : filesOf v.correlation t = distinct (done.map (·.writtenKey))
  exec : (∀ e ∈ done, e.eventType ≠ .processExec) → NoExec v.correlation t

/-- The fields that decide on the files of later events. -/
structure SameFiles (s s' : ExecutionState T F) : Prop where
  files : s'.distinctFiles = s.distinctFiles
  exec : s'.execTimestampNs = s.execTimestampNs

theorem SameFiles.refl (s : ExecutionState T F) : SameFiles s s := ⟨rfl, rfl⟩

theorem SameFiles.trans {s s' s'' : ExecutionState T F} (h : SameFiles s s')
    (h' : SameFiles s' s'') : SameFiles s s'' :=
  ⟨h'.files.trans h.files, h'.exec.trans h.exec⟩

end Data

variable {T F : Type} [Zero T] [Min T] [Sub T] [LE T] [DecidableLE T] [LT T] [DecidableLT T]
variable [FloatNum F]
variable {env : Env T} {p : AcceptedPolicy T} {limits : TelemetryLimits T}

/-! ## The files of an execution state -/

theorem recalculate_sameFiles (env : Env T) (p : AcceptedPolicy T) (reason : PyStr) (s : ExecutionState T F) (reads : Nat) :
    SameFiles s (recalculate env p reason s reads).1 := by
  obtain ⟨ts, heq⟩ := recalculate_fst env p reason s reads
  rw [heq]
  exact ⟨rfl, rfl⟩

theorem applyRule_sameFiles (r : Rule) (evidence : Json F) (s : ExecutionState T F) (reads : Nat) :
    SameFiles s (applyRule env p r evidence s reads).1 := by
  unfold applyRule
  dsimp only
  split
  · exact SameFiles.refl s
  · refine SameFiles.trans ?_ (recalculate_sameFiles env p r.name _ reads)
    exact ⟨rfl, rfl⟩

theorem touch_sameFiles (event : Mapping F) (now : T) (s : ExecutionState T F) :
    SameFiles s (touch event now s).2 := by
  unfold touch
  dsimp only
  split
  · exact ⟨rfl, rfl⟩
  · split <;> exact ⟨rfl, rfl⟩

/-- A new state has no files, and no exec was seen. -/
theorem createRuntimeState_sameFiles (env : Env T) (p : AcceptedPolicy T) (event : Mapping F)
    (pid ppid uid : Int) (parent : Option PyStr) (e : Engine T F) :
    (createRuntimeState env p event pid ppid uid parent e).1.distinctFiles = [] ∧
      (createRuntimeState env p event pid ppid uid parent e).1.execTimestampNs = none := by
  have hnew : SameFiles ((runtimeNewState (F := F) pid ppid uid parent).build
      (env.idFactory (evict p e).idsIssued) ((evict p e).nextGeneration pid)
      (env.clock (evict p e).clockReads))
      (newState env p (runtimeNewState pid ppid uid parent) e).1 := recalculate_sameFiles ..
  unfold createRuntimeState
  dsimp only
  split
  · exact ⟨hnew.files, hnew.exec⟩
  · split
    · obtain ⟨hfiles, hexec⟩ := applyRule_sameFiles .childProcessExec (childEvidence ppid _)
        (newState env p (runtimeNewState pid ppid uid _) e).1
        (newState env p (runtimeNewState pid ppid uid _) e).2.clockReads
      exact ⟨hfiles.trans hnew.files, hexec.trans hnew.exec⟩
    · exact ⟨hnew.files, hnew.exec⟩

/-- The key of a new file is added, and nothing else happens to the files. -/
theorem observeKey_sameFiles (env : Env T) (p : AcceptedPolicy T) (r : Rule) (key : PyStr) (evidence : Json F) (seen : List PyStr)
    (add : ExecutionState T F → List PyStr → ExecutionState T F) (s : ExecutionState T F)
    (reads : Nat) :
    SameFiles (if key ∈ seen then s else add s (seen ++ [key]))
      (observeKey env p r key evidence seen add s reads).1 := by
  unfold observeKey
  split
  · exact SameFiles.refl s
  · exact applyRule_sameFiles ..

theorem observeWrite_files (env : Env T) (p : AcceptedPolicy T) (e : EbpfEvent)
    (s : ExecutionState T F) (reads : Nat) :
    (observeWrite env p (e.record : Mapping F) s reads).1.distinctFiles =
        insertNew s.distinctFiles e.distinctFileKey ∧
      (observeWrite env p (e.record : Mapping F) s reads).1.execTimestampNs =
        s.execTimestampNs := by
  unfold observeWrite
  rw [RuntimeTelemetryAggregator.lookup_distinctFileKey]
  cases e.distinctFileKey with
  | none => exact ⟨rfl, rfl⟩
  | some k =>
      obtain ⟨hfiles, hexec⟩ := observeKey_sameFiles env p .distinctFileWrite k
        (.obj [(py "distinct_file_key", .str k)]) s.distinctFiles
        (fun s seen => { s with distinctFiles := seen }) s reads
      refine ⟨hfiles.trans ?_, hexec.trans ?_⟩
      · rw [insertNew]
        split <;> rfl
      · split <;> rfl

/-- The keys of the other kinds go to other fields. -/
theorem observeRename_sameFiles (env : Env T) (p : AcceptedPolicy T) (event : Mapping F)
    (s : ExecutionState T F) (reads : Nat) :
    SameFiles s (observeRename env p event s reads).1 := by
  refine SameFiles.trans ?_ (observeKey_sameFiles ..)
  split <;> exact ⟨rfl, rfl⟩

theorem observeConnect_sameFiles (env : Env T) (p : AcceptedPolicy T) (event : Mapping F)
    (s : ExecutionState T F) (reads : Nat) :
    SameFiles s (observeConnect env p event s reads).1 := by
  refine SameFiles.trans ?_ (observeKey_sameFiles ..)
  split <;> exact ⟨rfl, rfl⟩

theorem observeExec_files (event : Mapping F) (timestamp : Int) (s : ExecutionState T F)
    (reads : Nat) :
    (observeExec env p event timestamp s reads).1.distinctFiles = s.distinctFiles := by
  unfold observeExec
  dsimp only
  split
  · rfl
  · exact (applyRule_sameFiles ..).files

/-- An event that is no exit, and no second exec, is answered with its state, which has the key of a
    write. -/
theorem ingestKind_files (env : Env T) (p : AcceptedPolicy T) {e : EbpfEvent} (hexit : e.eventType ≠ .processExit) (now : T)
    {s : ExecutionState T F} (hexec : e.eventType = .processExec → s.execTimestampNs = none)
    (engine : Engine T F) :
    ∃ s', (ingestKind env p e.record now s engine).1 = .ok (.ingested s') ∧
      s'.distinctFiles = insertNew s.distinctFiles e.writtenKey ∧
      (e.eventType ≠ .processExec → s'.execTimestampNs = s.execTimestampNs) := by
  obtain ⟨-, -, timestamp, htimestamp⟩ := intOr_record (F := F) e 0
  have hfinish : ∀ {s₁ : ExecutionState T F} (reads : Nat) (engine : Engine T F),
      s₁.distinctFiles = insertNew s.distinctFiles e.writtenKey →
      (e.eventType ≠ .processExec → s₁.execTimestampNs = s.execTimestampNs) →
      ∃ s', (finishIngest env p e.record s₁ reads engine).1 = .ok (.ingested s') ∧
        s'.distinctFiles = insertNew s.distinctFiles e.writtenKey ∧
        (e.eventType ≠ .processExec → s'.execTimestampNs = s.execTimestampNs) := by
    intro s₁ reads engine hfiles htime
    obtain ⟨hfiles', htime'⟩ := recalculate_sameFiles env p (eventReason (e.record : Mapping F)) s₁ reads
    exact ⟨_, rfl, hfiles'.trans hfiles, fun h => htime'.trans (htime h)⟩
  unfold ingestKind
  rw [kindOf_record]
  generalize hkind : e.eventType = kind at hfinish hexit hexec ⊢
  cases kind with
  | processExec =>
      have hnone : e.writtenKey = none := if_neg (by rw [hkind]; decide)
      simp only [EventType.kind, htimestamp, replaceGeneration, hexec rfl]
      refine hexec rfl ▸ hfinish _ _ ?_ fun h => absurd rfl h
      rw [observeExec_files, hnone]
      rfl
  | processExit => exact absurd rfl hexit
  | fileWrite =>
      have hkey : e.writtenKey = e.distinctFileKey := if_pos hkind
      obtain ⟨hfiles, htime⟩ := observeWrite_files env p e s engine.clockReads
      exact hfinish _ _ (hkey ▸ hfiles) fun _ => htime
  | fileRename =>
      have hnone : e.writtenKey = none := if_neg (by rw [hkind]; decide)
      obtain ⟨hfiles, htime⟩ := observeRename_sameFiles env p (e.record : Mapping F) s engine.clockReads
      exact hfinish _ _ (hnone ▸ hfiles) fun _ => htime
  | networkConnect =>
      have hnone : e.writtenKey = none := if_neg (by rw [hkind]; decide)
      obtain ⟨hfiles, htime⟩ := observeConnect_sameFiles env p (e.record : Mapping F) s engine.clockReads
      exact hfinish _ _ (hnone ▸ hfiles) fun _ => htime

/-! ## One event -/

/-- The state an event is handed has the files of the live one. -/
theorem runtimeState_files (env : Env T) (p : AcceptedPolicy T) {e : EbpfEvent} (hpos : 0 < e.tgid)
    (engine : Engine T F) :
    ∃ s engine', runtimeState env p e.record engine = (.ok (some s), engine') ∧
      s.distinctFiles = filesOf engine e.tgid ∧
      (NoExec engine e.tgid → s.execTimestampNs = none) := by
  obtain ⟨⟨ppid, hppid⟩, ⟨uid, huid⟩, -⟩ := intOr_record (F := F) e 0
  unfold runtimeState filesOf NoExec
  simp only [pidOf_record e hpos, if_neg (not_le.2 (Int.natCast_pos.2 hpos))]
  cases hlive : engine.states.get? (e.tgid : Int) with
  | some s => exact ⟨s, engine, rfl, rfl, fun h => h s rfl⟩
  | none =>
      obtain ⟨hfiles, hexec⟩ := createRuntimeState_sameFiles env p (e.record : Mapping F) e.tgid ppid uid (parentOf env p ppid engine).1
        (parentOf env p ppid engine).2
      simp only [hppid, huid]
      exact ⟨_, _, rfl, hfiles, fun _ => hexec⟩

/-- An event of a process that has not run out of time adds the key of a write, and is answered with the
    state. -/
theorem ingestRuntimeEvent_files {e : EbpfEvent} (hpos : 0 < e.tgid)
    (hexit : e.eventType ≠ .processExit) {engine : Engine T F} (hk : Keyed engine)
    (htime : ∀ s, engine.states.get? (e.tgid : Int) = some s →
      expiry p (env.clock engine.clockReads) s = none)
    (hexec : e.eventType = .processExec → NoExec engine e.tgid) :
    ∃ s, (ingestRuntimeEvent env p e.record engine).1 = .ok (.ingested s) ∧
      (ingestRuntimeEvent env p e.record engine).2.states.get? (e.tgid : Int) = some s ∧
      s.distinctFiles = insertNew (filesOf engine e.tgid) e.writtenKey ∧
      (e.eventType ≠ .processExec → NoExec engine e.tgid → s.execTimestampNs = none) := by
  have hsame : (expire env p none engine).2.states.get? (e.tgid : Int) =
      engine.states.get? (e.tgid : Int) := by
    rw [get?_expire]
    cases hget : engine.states.get? (e.tgid : Int) with
    | none => rfl
    | some s => simp [Option.filter, htime s hget]
  obtain ⟨s, engine', hstate, hfiles, hnone⟩ :=
    runtimeState_files env p hpos (expire env p none engine).2
  have hfilesOf : filesOf (expire env p none engine).2 e.tgid = filesOf engine e.tgid := by
    rw [filesOf, hsame, filesOf]
  have hnoExec : NoExec (expire env p none engine).2 e.tgid ↔ NoExec engine e.tgid := by
    rw [NoExec, hsame, NoExec]
  rw [hfilesOf] at hfiles
  rw [hnoExec] at hnone
  obtain ⟨hfiles₁, hexec₁⟩ := touch_sameFiles (e.record : Mapping F)
    (env.clock engine'.clockReads) s
  have htouch : (touch (e.record : Mapping F) (env.clock engine'.clockReads) s).1 = .ok () := by
    obtain ⟨⟨ppid, hppid⟩, -, -⟩ := intOr_record (F := F) e s.ppid
    obtain ⟨-, ⟨uid, huid⟩, -⟩ := intOr_record (F := F) e s.uid
    simp only [touch, hppid, huid]
  generalize htouched : touch (e.record : Mapping F) (env.clock engine'.clockReads) s = touched
    at hfiles₁ hexec₁ htouch
  obtain ⟨_, s₁⟩ := touched
  cases htouch
  obtain ⟨s', hs', hfiles', hexec'⟩ := ingestKind_files env p hexit
    (env.clock engine'.clockReads) (s := s₁) (fun hkind => hexec₁.trans (hnone (hexec hkind))) (engine'.readClock.put s₁)
  have heq : ingestRuntimeEvent env p e.record engine =
      ingestKind env p e.record (env.clock engine'.clockReads) s₁ (engine'.readClock.put s₁) := by
    simp only [ingestRuntimeEvent, hstate, htouched]
  have hanswer : ingestRuntimeEvent env p e.record engine =
      (.ok (.ingested s'), (ingestRuntimeEvent env p e.record engine).2) := Prod.ext (heq ▸ hs') rfl
  obtain ⟨hlive, hpid⟩ := ingested_live hk hanswer
  rw [pidOf_record e hpos, Except.ok.injEq] at hpid
  refine ⟨s', heq ▸ hs', hpid ▸ hlive, ?_, ?_⟩
  · rw [hfiles', hfiles₁, hfiles]
  · intro hkind hno
    rw [hexec' hkind, hexec₁, hnone hno]

/-! ## Runs -/

variable (env p limits) in
/-- The daemon hands an event to the one and then to the other. -/
def Views.ingest (now : T) (e : EbpfEvent) (v : Views T F) : Views T F where
  telemetry := (v.telemetry.ingest limits now e.record).2
  correlation := (ingestRuntimeEvent env p e.record v.correlation).2

variable (limits) in
/-- `distinct_files_modified` of the summary of an event. -/
def telemetryCount (now : T) (e : EbpfEvent) (v : Views T F) : Option Nat :=
  match (v.telemetry.ingest limits now e.record).1 with
  | .ok (some summary) => some summary.distinctFilesModified
  | _ => none

variable (env p) in
/-- The number of `distinct_files` of the state an event is answered with. -/
def correlationCount (e : EbpfEvent) (v : Views T F) : Option Nat :=
  match (ingestRuntimeEvent env p e.record v.correlation).1 with
  | .ok (.ingested s) => some s.distinctFiles.length
  | _ => none

variable (env p limits) in
/-- Both count the files after an event, and come to the same number. -/
def SameCount (now : T) (e : EbpfEvent) (v : Views T F) : Prop :=
  ∃ n, telemetryCount limits now e v = some n ∧ correlationCount env p e v = some n

variable (env p limits) in
/-- The event comes within both times to live. -/
def inTime (now : T) (e : EbpfEvent) (v : Views T F) : Bool :=
  ((v.telemetry.states.get? (e.tgid : Int)).all fun s =>
      decide ¬ limits.stateTtlSeconds < now - s.lastSeenMonotonic) &&
    (v.correlation.states.get? (e.tgid : Int)).all fun s =>
      (expiry p (env.clock v.correlation.clockReads) s).isNone

variable (env p limits) in
/-- A property of each event of a sequence and of the views it finds. -/
def Throughout (P : T → EbpfEvent → Views T F → Prop) : Views T F → List (EbpfEvent × T) → Prop
  | _, [] => True
  | v, (e, now) :: rest => P now e v ∧ Throughout P (v.ingest env p limits now e) rest

/-- The counts after some events are the same. -/
def EqualCounts (es : List EbpfEvent) : Prop :=
  (distinct (es.map (·.distinctFileKey))).length = (distinct (es.map (·.writtenKey))).length

/-- One event. -/
theorem Follows.ingest {t : Nat} (ht : 0 < t) (hmax : 0 < limits.maxStates)
    {done rest : List EbpfEvent} {v : Views T F} (h : Follows t done v) {e : EbpfEvent} {now : T}
    (hevents : ProcessEvents limits t (done ++ e :: rest)) (htime : inTime env p limits now e v = true) :
    Follows t (done ++ [e]) (v.ingest env p limits now e) ∧
      (SameCount env p limits now e v ↔ EqualCounts (done ++ [e])) := by
  have hmem : e ∈ done ++ e :: rest := by simp
  obtain rfl := hevents.tgid e hmem
  have hexit := hevents.no_exit e hmem
  obtain ⟨htelemetry, hcorrelation⟩ := (Bool.and_eq_true _ _).mp htime
  rw [Option.all_eq_true] at htelemetry hcorrelation
  have hkeys : ∀ f : EbpfEvent → Option PyStr,
      insertNew (distinct (done.map f)) (f e) = distinct ((done ++ [e]).map f) := by
    intro f
    rw [List.map_append, List.map_singleton, distinct_snoc]
  have hcap : ((insertNew (distinct (done.map (·.distinctFileKey))) e.distinctFileKey).length : Int) ≤
      limits.maxDistinctFilesPerProcess := by
    rw [hkeys (·.distinctFileKey)]
    have hle : (distinct ((done ++ [e]).map (·.distinctFileKey))).length ≤
        (distinct ((done ++ [e]).map (·.distinctFileKey) ++ rest.map (·.distinctFileKey))).length :=
      length_distinct_le _ _
    rw [← List.map_append, ← List.append_cons] at hle
    exact le_trans (Int.ofNat_le.2 hle) hevents.below_cap
  obtain ⟨summary, a, hanswer, hget, hfiles, hcount⟩ := v.telemetry.ingest_spec hmax ht hexit
    (fun s hs => of_decide_eq_true (htelemetry s hs)) h.telemetry hcap
  obtain ⟨s, hanswer', hget', hfiles', hexec'⟩ := ingestRuntimeEvent_files ht hexit h.keyed
    (fun s hs => Option.isNone_iff_eq_none.1 (hcorrelation s hs))
    fun hkind => h.exec (hevents.one_exec done e rest rfl hkind)
  rw [hkeys (·.distinctFileKey)] at hfiles
  rw [h.correlation, hkeys (·.writtenKey)] at hfiles'
  refine ⟨⟨ingestRuntimeEvent_keyed env p _ h.keyed, ?_, ?_, ?_⟩, ?_⟩
  · simp only [Views.ingest, hget, Option.map_some, Option.getD_some, hfiles]
  · simp only [Views.ingest, filesOf, hget', Option.map_some, Option.getD_some, hfiles']
  · intro hno s' hs'
    obtain rfl := Option.some.inj (hget'.symm.trans hs')
    exact hexec' (hno e (by simp)) (h.exec fun e' he' => hno e' (List.mem_append_left _ he'))
  · have htel : telemetryCount limits now e v =
        some (distinct ((done ++ [e]).map (·.distinctFileKey))).length := by
      simp only [telemetryCount, hanswer, hcount, hfiles]
    have hcor : correlationCount env p e v =
        some (distinct ((done ++ [e]).map (·.writtenKey))).length := by
      simp only [correlationCount, hanswer', hfiles']
    rw [SameCount, htel, hcor, EqualCounts]
    simp [eq_comm]

/-- The first event and the later ones. -/
theorem forall_split_cons {α : Type} {Q : List α → α → Prop} {a : α} {as : List α} :
    (∀ pre x post, a :: as = pre ++ x :: post → Q pre x) ↔
      Q [] a ∧ ∀ pre x post, as = pre ++ x :: post → Q (a :: pre) x := by
  constructor
  · exact fun h => ⟨h [] a as rfl, fun pre x post has => h (a :: pre) x post (by rw [has]; rfl)⟩
  · rintro ⟨hfirst, hlater⟩ pre x post has
    cases pre with
    | nil =>
        obtain ⟨rfl, -⟩ := List.cons.inj has
        exact hfirst
    | cons b pre =>
        obtain ⟨rfl, hrest⟩ := List.cons.inj has
        exact hlater pre x post hrest

/-- A run. -/
theorem Follows.sameCount_iff {t : Nat} (ht : 0 < t) (hmax : 0 < limits.maxStates)
    {events : List (EbpfEvent × T)} {done : List EbpfEvent} {v : Views T F} (h : Follows t done v)
    (hevents : ProcessEvents limits t (done ++ events.map Prod.fst))
    (htime : Throughout env p limits (fun now e v => inTime env p limits now e v = true) v events) :
    Throughout env p limits (SameCount env p limits) v events ↔
      ∀ pre e post, events.map Prod.fst = pre ++ e :: post → EqualCounts (done ++ pre ++ [e]) := by
  induction events generalizing done v with
  | nil => exact iff_of_true trivial fun pre e post h => by simp at h
  | cons event events ih =>
      obtain ⟨e, now⟩ := event
      rw [List.map_cons] at hevents ⊢
      obtain ⟨hfirst, hlater⟩ := htime
      obtain ⟨hnext, hcount⟩ := h.ingest ht hmax hevents hfirst
      rw [List.append_cons] at hevents
      rw [forall_split_cons, Throughout, hcount, ih hnext hevents hlater]
      simp only [List.append_nil, ← List.append_cons]

/-- **When the two views agree.** For the events of one process, fed to the daemon's counters in a state
    without a trace of it, the counts are the same after every event if and only if the file key of each
    event is one that was written by then. -/
theorem views_agree_iff (env : Env T) (p : AcceptedPolicy T) (limits : TelemetryLimits T)
    (hmax : 0 < limits.maxStates) (t : Nat) (ht : 0 < t) (before : List (Call T F)) (v : Views T F)
    (hbefore : v.correlation = runCalls env p before {})
    (htelemetry : v.telemetry.states.get? (t : Int) = none)
    (hfiles : filesOf v.correlation t = []) (hexec : NoExec v.correlation t)
    (events : List (EbpfEvent × T)) (hevents : ProcessEvents limits t (events.map Prod.fst))
    (htime : Throughout env p limits (fun now e v => inTime env p limits now e v = true) v events) :
    Throughout env p limits (SameCount env p limits) v events ↔
      ∀ pre e post, events.map Prod.fst = pre ++ e :: post → ∀ k, e.distinctFileKey = some k →
        some k ∈ (pre ++ [e]).map (·.writtenKey) := by
  have hkeyed : Keyed v.correlation := by
    rw [hbefore]
    exact runCalls_keyed env p before fun _ _ h => nomatch h
  have hfollows : Follows t [] v := ⟨hkeyed, by rw [htelemetry]; rfl, hfiles, fun _ => hexec⟩
  have hwritten : ∀ e : EbpfEvent, e.writtenKey = none ∨ e.writtenKey = e.distinctFileKey := by
    intro e
    unfold EbpfEvent.writtenKey
    split
    · exact .inr rfl
    · exact .inl rfl
  rw [hfollows.sameCount_iff ht hmax hevents htime, ← length_distinct_eq_iff hwritten]
  rfl

/-- The limits of the daemon. -/
def defaultLimits : TelemetryLimits ℤ := ⟨300, 4096, 2048⟩

/-- Process 7 writes a file. -/
def fileWrite : EbpfEvent :=
  { eventType := .fileWrite, timestampNs := 1, pid := 7, tgid := 7, ppid := 1, uid := 0
    comm := py "a", device := some 1, inode := some 2 }

/-- It renames a file; the probe fills in no device and no inode. -/
def fileRename : EbpfEvent :=
  { eventType := .fileRename, timestampNs := 2, pid := 7, tgid := 7, ppid := 1, uid := 0
    comm := py "a", executableIdentifier := some (py "b"), device := some 0, inode := some 0 }

/-- The daemon at its start. -/
def startViews : Views ℤ SampleFloat := ⟨{}, {}⟩

/-- Two writes of one file. -/
theorem views_agree_writes : Throughout sampleEnv acceptedDefaultPolicy defaultLimits
    (SameCount sampleEnv acceptedDefaultPolicy defaultLimits) startViews
    [(fileWrite, 0), (fileWrite, 1)] := by
  have hwrite : ∀ {pre post : List EbpfEvent} {e : EbpfEvent},
      [fileWrite, fileWrite] = pre ++ e :: post → e = fileWrite := by
    intro pre post e hes
    have hmem : e ∈ [fileWrite, fileWrite] := by
      rw [hes]
      simp
    simpa using hmem
  refine (views_agree_iff sampleEnv acceptedDefaultPolicy defaultLimits (by decide) 7 (by decide) []
    startViews rfl rfl rfl (fun _ h => nomatch h) [(fileWrite, 0), (fileWrite, 1)]
    ⟨by decide, by decide, ?_, by decide +kernel⟩
    (show _ ∧ _ from ⟨by decide +kernel, by decide +kernel, trivial⟩)).2 ?_
  · intro pre e post hes hkind
    rw [hwrite hes] at hkind
    cases hkind
  · intro pre e post hes k hk
    rw [hwrite hes] at hk ⊢
    rw [List.map_append, List.mem_append, ← hk]
    exact .inr (by decide +kernel)

/-- A rename is counted by the telemetry alone. -/
theorem rename_counted_once : ProcessEvents defaultLimits 7 [fileRename] ∧
    Throughout sampleEnv acceptedDefaultPolicy defaultLimits
      (fun now e v => inTime sampleEnv acceptedDefaultPolicy defaultLimits now e v = true) startViews
      [(fileRename, 0)] ∧
    ¬ Throughout sampleEnv acceptedDefaultPolicy defaultLimits
      (SameCount sampleEnv acceptedDefaultPolicy defaultLimits) startViews [(fileRename, 0)] := by
  refine ⟨⟨by decide, by decide, ?_, by decide +kernel⟩,
    show _ ∧ _ from ⟨by decide +kernel, trivial⟩, ?_⟩
  · intro pre e post hes hkind
    have hmem : e ∈ [fileRename] := by
      rw [hes]
      simp
    rw [List.mem_singleton.1 hmem] at hkind
    cases hkind
  · rintro ⟨⟨n, htelemetry, hcorrelation⟩, -⟩
    have hone : telemetryCount defaultLimits 0 fileRename startViews = some 1 := by decide +kernel
    have hzero : correlationCount sampleEnv acceptedDefaultPolicy fileRename startViews = some 0 := by
      decide +kernel
    rw [hone] at htelemetry
    rw [hzero, ← htelemetry] at hcorrelation
    cases hcorrelation

end Elyra.Ebpf
