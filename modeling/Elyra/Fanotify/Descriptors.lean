import Elyra.Posix.Table

set_option autoImplicit false

/-! # The descriptors of permission events

The kernel hands each permission event an open descriptor. The analysis job gets its number, an
integer, and goes through it: `/proc/self/fd/<n>` is opened several times, and the entropy pass
duplicates the number and rewinds the duplicate, which shares its read offset. The handler waits for
the job with a timeout and then answers, and `respond` closes the descriptor. A job that is running
when the wait times out cannot be cancelled and keeps its number.

A slot of the table carries who put its entry there; nothing but the invariant reads it. -/

namespace Elyra.Fanotify

open Elyra.Posix

/-- Who a slot belongs to. -/
inductive Owner where
  | event (i : Nat)
  | scan (i : Nat)
  | other
  deriving DecidableEq, Repr

/-- A descriptor: the open file description it refers to. -/
structure Slot where
  desc : Nat
  owner : Owner
  deriving DecidableEq, Repr

/-- An open file description. -/
structure Description where
  file : Nat
  offset : Nat
  deriving DecidableEq, Repr

/-- What an analysis job does with descriptors. The first four go through the number of the event,
    the others through the `k`-th descriptor the job has opened itself. -/
inductive JobOp where
  | stat
  | openPath
  | fstat
  | dup
  | read (k n : Nat)
  | seek (k : Nat)
  | close (k : Nat)
  deriving DecidableEq, Repr

/-- The operations of `_scan` on a file of `chunks` chunks: the head, libmagic, the ELF and the PE
    reader each open the path again, and the entropy pass duplicates the descriptor. -/
def scanOps (elf pe : Bool) (chunks : Nat) : List JobOp :=
  let inspect : List JobOp := [.openPath, .read 0 64, .close 0]
  [.stat] ++ inspect ++ inspect ++ (if elf then inspect else []) ++ (if pe then inspect else []) ++
    [.fstat, .dup, .seek 0] ++ List.replicate chunks (.read 0 4096) ++ [.close 0]

/-- The job of an event in the analysis pool; `mine` are the numbers it has opened. -/
inductive Job where
  | absent
  | queued (ops : List JobOp)
  | running (ops : List JobOp) (mine : List Nat)
  | ended
  | cancelled
  deriving DecidableEq, Repr

/-- How far `_handle_event` has come. -/
inductive Handler where
  | deciding
  | waiting
  | settled
  | answered
  deriving DecidableEq, Repr

structure Delivered where
  fd : Nat
  desc : Nat
  handler : Handler
  job : Job
  deriving DecidableEq, Repr

structure Daemon where
  table : Table Slot
  descs : List Description
  events : List Delivered
  deriving DecidableEq, Repr

/-- The file an open file description is of. -/
def Daemon.fileOf (d : Daemon) (desc : Nat) : Option Nat := (d.descs[desc]?).map Description.file

def Daemon.setEvent (d : Daemon) (i : Nat) (e : Delivered) : Daemon :=
  { d with events := d.events.set i e }

/-- A new description of a file, at the lowest free number. -/
def Daemon.openFile (d : Daemon) (file : Nat) (owner : Owner) : Daemon :=
  { d with
    table := d.table.put ⟨d.descs.length, owner⟩
    descs := d.descs ++ [⟨file, 0⟩] }

/-- Moving the offset of a description. -/
def Daemon.moveOffset (d : Daemon) (desc : Nat) (f : Nat → Nat) : Daemon :=
  { d with descs := d.descs.modify desc fun x => { x with offset := f x.offset } }

inductive Step where
  /-- The kernel delivers an event for a file. -/
  | arrive (file : Nat)
  /-- The handler decides without an analysis. -/
  | exempt (i : Nat)
  /-- `pool.submit`. -/
  | submit (i : Nat) (ops : List JobOp)
  /-- A worker takes the job. -/
  | start (i : Nat)
  /-- The job goes on by one operation. -/
  | run (i : Nat)
  /-- The handler gets the result. -/
  | collect (i : Nat)
  /-- The wait times out; `future.cancel()` stops only a job that has not started. -/
  | timeout (i : Nat)
  /-- `respond`, which closes the descriptor. -/
  | respond (i : Nat)
  /-- The rest of the daemon opens a file, or closes one of its own. -/
  | openOther (file : Nat)
  | closeOther (n : Nat)
  deriving DecidableEq, Repr

/-- One operation of the job of event `i`. An operation on a number that refers to nothing fails and
    changes nothing. -/
def Daemon.perform (d : Daemon) (i : Nat) (e : Delivered) (mine : List Nat) (op : JobOp)
    (ops : List JobOp) : Daemon :=
  let go (d : Daemon) (mine : List Nat) : Daemon :=
    d.setEvent i { e with job := .running ops mine }
  match op with
  | .stat => go d mine
  | .fstat => go d mine
  | .openPath =>
      match d.table.get e.fd with
      | none => go d mine
      | some slot =>
          go (d.openFile ((d.fileOf slot.desc).getD 0) (.scan i)) (mine ++ [d.table.lowestFree])
  | .dup =>
      match d.table.get e.fd with
      | none => go d mine
      | some slot =>
          go { d with table := d.table.put ⟨slot.desc, .scan i⟩ } (mine ++ [d.table.lowestFree])
  | .read k n =>
      match (mine[k]?).bind d.table.get with
      | none => go d mine
      | some slot => go (d.moveOffset slot.desc (· + n)) mine
  | .seek k =>
      match (mine[k]?).bind d.table.get with
      | none => go d mine
      | some slot => go (d.moveOffset slot.desc fun _ => 0) mine
  | .close k =>
      match mine[k]? with
      | none => go d mine
      | some n => go { d with table := d.table.close n } (mine.eraseIdx k)

/-- What a step does to an event, and to the daemon through it; a step that is not enabled does
    nothing. -/
def Daemon.stepEvent (d : Daemon) (i : Nat) (e : Delivered) : Step → Daemon
  | .exempt _ =>
      if e.handler = .deciding then d.setEvent i { e with handler := .settled } else d
  | .submit _ ops =>
      if e.handler = .deciding then
        d.setEvent i { e with handler := .waiting, job := .queued ops }
      else d
  | .start _ =>
      match e.job with
      | .queued ops => d.setEvent i { e with job := .running ops [] }
      | _ => d
  | .run _ =>
      match e.job with
      | .running [] _ => d.setEvent i { e with job := .ended }
      | .running (op :: ops) mine => d.perform i e mine op ops
      | _ => d
  | .collect _ =>
      if e.handler = .waiting ∧ e.job = .ended then
        d.setEvent i { e with handler := .settled }
      else d
  | .timeout _ =>
      if e.handler = .waiting then
        match e.job with
        | .queued _ => d.setEvent i { e with handler := .settled, job := .cancelled }
        | _ => d.setEvent i { e with handler := .settled }
      else d
  | .respond _ =>
      if e.handler = .settled then
        { d with table := d.table.close e.fd }.setEvent i { e with handler := .answered }
      else d
  | _ => d

/-- The event a step is of. -/
def Step.event? : Step → Option Nat
  | .exempt i | .submit i _ | .start i | .run i | .collect i | .timeout i | .respond i => some i
  | _ => none

def Daemon.step (d : Daemon) (x : Step) : Daemon :=
  match x with
  | .arrive file =>
      { d.openFile file (.event d.events.length) with
        events := d.events ++ [⟨d.table.lowestFree, d.descs.length, .deciding, .absent⟩] }
  | .openOther file => d.openFile file .other
  | .closeOther n =>
      match d.table.get n with
      | some ⟨_, .other⟩ => { d with table := d.table.close n }
      | _ => d
  | x =>
      match x.event?.bind fun i => (d.events[i]?).map fun e => (i, e) with
      | some (i, e) => d.stepEvent i e x
      | none => d

/-- A daemon with no events, and the descriptors it starts with. -/
def Daemon.start (files : List Nat) : Daemon :=
  files.foldl (fun d file => d.openFile file .other) ⟨[], [], []⟩

def afterSteps (files : List Nat) (steps : List Step) : Daemon :=
  steps.foldl Daemon.step (Daemon.start files)

/-! ## The property -/

/-- The operation goes through the number of the event. -/
def JobOp.viaEvent : JobOp → Bool
  | .stat | .openPath | .fstat | .dup => true
  | _ => false

/-- The descriptor an operation works on. -/
def JobOp.slot (d : Daemon) (e : Delivered) (mine : List Nat) : JobOp → Option Slot
  | .stat | .openPath | .fstat | .dup => d.table.get e.fd
  | .read k _ | .seek k | .close k => (mine[k]?).bind d.table.get

/-- The operation moves the offset of the description it works on. -/
def JobOp.moves : JobOp → Bool
  | .read _ _ | .seek _ => true
  | _ => false

/-- An operation of the job of event `i` that keeps to its own event: the event's number refers to
    the description delivered with it, the file is the event's, and no offset of another event is
    moved. -/
structure OwnFile (d : Daemon) (i : Nat) (e : Delivered) (mine : List Nat) (op : JobOp) : Prop where
  number : op.viaEvent = true → ∃ slot, d.table.get e.fd = some slot ∧ slot.desc = e.desc
  file : ∀ slot, op.slot d e mine = some slot → d.fileOf slot.desc = d.fileOf e.desc
  offset : op.moves = true → ∀ slot, op.slot d e mine = some slot →
    ∀ (j : Nat) (e' : Delivered), j ≠ i → d.events[j]? = some e' → slot.desc ≠ e'.desc

/-- The job of event `i` is about to do this operation. -/
def Daemon.Next (d : Daemon) (x : Step) (i : Nat) (e : Delivered) (mine : List Nat) (op : JobOp) :
    Prop :=
  x = .run i ∧ d.events[i]? = some e ∧ ∃ ops, e.job = .running (op :: ops) mine

/-- Every analysis keeps to its own event, at every step of the run. -/
def OwnFileOnly (files : List Nat) (steps : List Step) : Prop :=
  ∀ (before : List Step) (x : Step), before ++ [x] <+: steps →
    ∀ (i : Nat) (e : Delivered) (mine : List Nat) (op : JobOp),
      (afterSteps files before).Next x i e mine op → OwnFile (afterSteps files before) i e mine op

/-- The step lets a job go through the number of an event that has been answered. -/
def Daemon.Late (d : Daemon) (x : Step) : Prop :=
  ∃ i e mine op, d.Next x i e mine op ∧ op.viaEvent = true ∧ e.handler = .answered

/-- Some job goes through the number of its event after the answer. -/
def LateUse (files : List Nat) (steps : List Step) : Prop :=
  ∃ (before : List Step) (x : Step), before ++ [x] <+: steps ∧ (afterSteps files before).Late x

/-! ## The invariant -/

/-- No event was delivered with this description. -/
def Daemon.Foreign (d : Daemon) (desc : Nat) : Prop :=
  ∀ (j : Nat) (e : Delivered), d.events[j]? = some e → desc ≠ e.desc

/-- What the slot `n` may hold, by its owner. -/
def Daemon.SlotOk (d : Daemon) (n : Nat) (slot : Slot) : Prop :=
  slot.desc < d.descs.length ∧
    match slot.owner with
    | .event i => ∃ e, d.events[i]? = some e ∧ n = e.fd ∧ slot.desc = e.desc ∧
        e.handler ≠ .answered
    | .scan i => ∃ e, d.events[i]? = some e ∧ n ≠ e.fd ∧
        d.fileOf slot.desc = d.fileOf e.desc ∧ (slot.desc = e.desc ∨ d.Foreign slot.desc)
    | .other => d.Foreign slot.desc

/-- The job has its own descriptors. -/
def Daemon.JobOk (d : Daemon) (i : Nat) (e : Delivered) : Prop :=
  ∀ ops mine, e.job = .running ops mine →
    mine.Nodup ∧ ∀ n ∈ mine, ∃ desc, d.table.get n = some ⟨desc, .scan i⟩

/-- Every event that has not been answered has its descriptor, every slot belongs to its owner, and
    the descriptions delivered with the events are distinct. -/
structure Daemon.Inv (d : Daemon) : Prop where
  delivered : ∀ (i : Nat) (e : Delivered), d.events[i]? = some e → e.handler ≠ .answered →
    d.table.get e.fd = some ⟨e.desc, .event i⟩
  known : ∀ (i : Nat) (e : Delivered), d.events[i]? = some e → e.desc < d.descs.length
  distinct : ∀ (i j : Nat) (e e' : Delivered), d.events[i]? = some e → d.events[j]? = some e' →
    i ≠ j → e.desc ≠ e'.desc
  slots : ∀ (n : Nat) (slot : Slot), d.table.get n = some slot → d.SlotOk n slot
  jobs : ∀ (i : Nat) (e : Delivered), d.events[i]? = some e → d.JobOk i e

/-! ### Looking at the parts -/

theorem fileOf_append (d : Daemon) (table : Table Slot) (events : List Delivered)
    (x : Description) {desc : Nat} (h : desc < d.descs.length) :
    Daemon.fileOf ⟨table, d.descs ++ [x], events⟩ desc = d.fileOf desc := by
  rw [Daemon.fileOf, Daemon.fileOf, List.getElem?_append_left h]

theorem fileOf_new (d : Daemon) (table : Table Slot) (events : List Delivered) (x : Description) :
    Daemon.fileOf ⟨table, d.descs ++ [x], events⟩ d.descs.length = some x.file := by
  simp [Daemon.fileOf]

theorem fileOf_moveOffset (d : Daemon) (desc : Nat) (f : Nat → Nat) (desc' : Nat) :
    (d.moveOffset desc f).fileOf desc' = d.fileOf desc' := by
  simp only [Daemon.fileOf, Daemon.moveOffset, List.getElem?_modify]
  cases d.descs[desc']? with
  | none => rfl
  | some x =>
      by_cases h : desc = desc'
      · simp [h]
      · simp [h]

/-- What a step may do to an event: its descriptor stays, an answer is final and closes the number,
    and the job, if it changes, has its descriptors. -/
structure EventChange (d' : Daemon) (j : Nat) (e e' : Delivered) : Prop where
  fd : e'.fd = e.fd
  desc : e'.desc = e.desc
  final : e.handler = .answered → e'.handler = .answered
  closes : e'.handler = .answered → e.handler = .answered ∨ d'.table.get e.fd = none
  job : d'.JobOk j e' ∨ e'.job = e.job

/-- What a step may do to a daemon, apart from the arrival of an event. -/
structure Change (d d' : Daemon) : Prop where
  events : ∀ (j : Nat) (e' : Delivered), d'.events[j]? = some e' →
    ∃ e, d.events[j]? = some e ∧ EventChange d' j e e'
  length : d'.events.length = d.events.length
  grow : d.descs.length ≤ d'.descs.length
  files : ∀ desc < d.descs.length, d'.fileOf desc = d.fileOf desc
  put : ∀ (n : Nat) (slot : Slot), d'.table.get n = some slot →
    d.table.get n = some slot ∨ d'.SlotOk n slot
  released : ∀ (n : Nat) (slot : Slot), d.table.get n = some slot →
    d'.table.get n = some slot ∨
    match slot.owner with
    | .other => True
    | .scan j => ∀ e', d'.events[j]? = some e' → d'.JobOk j e'
    | .event j => ∀ e', d'.events[j]? = some e' → e'.handler = .answered

theorem Change.kept {d d' : Daemon} (h : Change d d') {j : Nat} {e : Delivered}
    (he : d.events[j]? = some e) : ∃ e', d'.events[j]? = some e' ∧ EventChange d' j e e' := by
  have hlt : j < d'.events.length := by
    rw [h.length]
    exact (List.getElem?_eq_some_iff.1 he).1
  obtain ⟨e₀, he₀, hchange⟩ := h.events j _ (List.getElem?_eq_getElem hlt)
  rw [he] at he₀
  cases he₀
  exact ⟨_, List.getElem?_eq_getElem hlt, hchange⟩

theorem Daemon.Foreign.change {d d' : Daemon} (h : Change d d') {desc : Nat}
    (hf : d.Foreign desc) : d'.Foreign desc := by
  intro j e' he'
  obtain ⟨e, he, hchange⟩ := h.events j e' he'
  rw [hchange.desc]
  exact hf j e he

/-- A slot that a step leaves is still its owner's. -/
theorem Daemon.SlotOk.change {d d' : Daemon} (hinv : d.Inv) (h : Change d d') {n : Nat}
    {slot : Slot} (hslot : d'.table.get n = some slot) (hok : d.SlotOk n slot) :
    d'.SlotOk n slot := by
  obtain ⟨hknown, howner⟩ := hok
  refine ⟨hknown.trans_le h.grow, ?_⟩
  cases ho : slot.owner with
  | other =>
      rw [ho] at howner
      exact howner.change h
  | event j =>
      rw [ho] at howner
      obtain ⟨e, he, hn, hdesc, hopen⟩ := howner
      obtain ⟨e', he', hchange⟩ := h.kept he
      refine ⟨e', he', hn.trans hchange.fd.symm, hdesc.trans hchange.desc.symm, ?_⟩
      intro hans
      rcases hchange.closes hans with hans | hclosed
      · exact hopen hans
      · rw [← hn, hslot] at hclosed
        cases hclosed
  | scan j =>
      rw [ho] at howner
      obtain ⟨e, he, hn, hfile, hdesc⟩ := howner
      obtain ⟨e', he', hchange⟩ := h.kept he
      refine ⟨e', he', ?_, ?_, ?_⟩
      · rw [hchange.fd]
        exact hn
      · rw [hchange.desc, h.files _ hknown, h.files _ (hinv.known j e he)]
        exact hfile
      · rw [hchange.desc]
        exact hdesc.imp id fun hf => hf.change h

/-- A change of this kind keeps the invariant. -/
theorem Daemon.Inv.change {d d' : Daemon} (hinv : d.Inv) (h : Change d d') : d'.Inv where
  delivered := by
    intro j e' he' hopen
    obtain ⟨e, he, hchange⟩ := h.events j e' he'
    have hget := hinv.delivered j e he fun hans => hopen (hchange.final hans)
    rw [hchange.fd, hchange.desc]
    rcases h.released _ _ hget with hsame | hreleased
    · exact hsame
    · exact absurd (hreleased e' he') hopen
  known := by
    intro j e' he'
    obtain ⟨e, he, hchange⟩ := h.events j e' he'
    rw [hchange.desc]
    exact (hinv.known j e he).trans_le h.grow
  distinct := by
    intro i j e' f' he' hf' hij
    obtain ⟨e, he, hce⟩ := h.events i e' he'
    obtain ⟨f, hf, hcf⟩ := h.events j f' hf'
    rw [hce.desc, hcf.desc]
    exact hinv.distinct i j e f he hf hij
  slots := by
    intro n slot hslot
    rcases h.put n slot hslot with hold | hnew
    · exact (hinv.slots n slot hold).change hinv h hslot
    · exact hnew
  jobs := by
    intro j e' he'
    obtain ⟨e, he, hchange⟩ := h.events j e' he'
    rcases hchange.job with hok | hjob
    · exact hok
    · intro ops mine hrun
      obtain ⟨hnodup, hmine⟩ := hinv.jobs j e he ops mine (hjob ▸ hrun)
      refine ⟨hnodup, fun n hn => ?_⟩
      obtain ⟨desc, hget⟩ := hmine n hn
      rcases h.released n _ hget with hsame | hreleased
      · exact ⟨desc, hsame⟩
      · exact (hreleased e' he' ops mine hrun).2 n hn

/-! ### One step -/

theorem Change.refl (d : Daemon) : Change d d where
  events := fun _ e he => ⟨e, he, rfl, rfl, id, .inl, .inr rfl⟩
  length := rfl
  grow := le_rfl
  files := fun _ _ => rfl
  put := fun _ _ => .inl
  released := fun _ _ => .inl

/-- A change of one event, of the table and of the descriptions. -/
theorem Change.one {d d' : Daemon} {i : Nat} {e e' : Delivered} (he : d.events[i]? = some e)
    (hevents : d'.events = d.events.set i e') (hchange : EventChange d' i e e')
    (grow : d.descs.length ≤ d'.descs.length)
    (files : ∀ desc < d.descs.length, d'.fileOf desc = d.fileOf desc)
    (put : ∀ (n : Nat) (slot : Slot), d'.table.get n = some slot →
      d.table.get n = some slot ∨ d'.SlotOk n slot)
    (released : ∀ (n : Nat) (slot : Slot), d.table.get n = some slot →
      d'.table.get n = some slot ∨
      match slot.owner with
      | .other => True
      | .scan j => ∀ e', d'.events[j]? = some e' → d'.JobOk j e'
      | .event j => ∀ e', d'.events[j]? = some e' → e'.handler = .answered) : Change d d' where
  events := by
    intro j e'' he''
    rw [hevents] at he''
    by_cases hj : j = i
    · subst hj
      rw [List.getElem?_set_self (List.getElem?_eq_some_iff.1 he).1] at he''
      cases he''
      exact ⟨e, he, hchange⟩
    · rw [List.getElem?_set_ne (Ne.symm hj)] at he''
      exact ⟨e'', he'', rfl, rfl, id, .inl, .inr rfl⟩
  length := by rw [hevents, List.length_set]
  grow := grow
  files := files
  put := put
  released := released

/-- A step that changes an event only. -/
theorem Change.setEvent {d : Daemon} {i : Nat} {e e' : Delivered} (he : d.events[i]? = some e)
    (hfd : e'.fd = e.fd) (hdesc : e'.desc = e.desc)
    (hans : e'.handler = .answered ↔ e.handler = .answered)
    (hjob : d.JobOk i e' ∨ e'.job = e.job) : Change d (d.setEvent i e') :=
  .one he rfl ⟨hfd, hdesc, hans.2, fun h => .inl (hans.1 h), hjob⟩ le_rfl (fun _ _ => rfl)
    (fun _ _ => .inl) (fun _ _ => .inl)

section Perform

variable {d : Daemon} {i : Nat} {e : Delivered} {op : JobOp} {ops : List JobOp} {mine : List Nat}

/-- A job that keeps its descriptors. -/
theorem Daemon.JobOk.same_mine (h : d.JobOk i e) (hjob : e.job = .running (op :: ops) mine)
    {d' : Daemon} (hmine : ∀ n ∈ mine, d'.table.get n = d.table.get n) :
    d'.JobOk i { e with job := .running ops mine } := by
  intro ops' mine' hrun
  cases hrun
  obtain ⟨hnodup, hget⟩ := h _ mine hjob
  refine ⟨hnodup, fun n hn => ?_⟩
  rw [hmine n hn]
  exact hget n hn

/-- A job that takes the lowest free number for itself. -/
theorem Daemon.JobOk.more (h : d.JobOk i e) (hjob : e.job = .running (op :: ops) mine)
    {d' : Daemon} {desc : Nat} (htable : d'.table = d.table.put ⟨desc, .scan i⟩) :
    d'.JobOk i { e with job := .running ops (mine ++ [d.table.lowestFree]) } := by
  intro ops' mine' hrun
  cases hrun
  obtain ⟨hnodup, hget⟩ := h _ mine hjob
  refine ⟨?_, ?_⟩
  · refine hnodup.append (List.nodup_singleton _) (List.disjoint_singleton.2 ?_)
    intro hmem
    obtain ⟨desc', hdesc'⟩ := hget _ hmem
    exact Table.ne_lowestFree hdesc' rfl
  · intro n hn
    rw [htable]
    rcases List.mem_append.1 hn with hn | hn
    · obtain ⟨desc', hdesc'⟩ := hget n hn
      exact ⟨desc', Table.get_put_of_some hdesc' _⟩
    · rw [List.mem_singleton.1 hn, Table.get_put, if_pos rfl]
      exact ⟨desc, rfl⟩

/-- A step of the job that adds a descriptor to the event's file. -/
theorem Change.addSlot (hinv : d.Inv) (he : d.events[i]? = some e)
    (hjob : e.job = .running (op :: ops) mine) (hopen : e.handler ≠ .answered) {desc : Nat}
    {descs : List Description} (hgrow : d.descs.length ≤ descs.length)
    (hfiles : ∀ n < d.descs.length, Daemon.fileOf ⟨d.table, descs, d.events⟩ n = d.fileOf n)
    (hknown : desc < descs.length)
    (hfile : Daemon.fileOf ⟨d.table, descs, d.events⟩ desc = d.fileOf e.desc)
    (hdesc : desc = e.desc ∨ d.Foreign desc) :
    Change d (Daemon.setEvent ⟨d.table.put ⟨desc, .scan i⟩, descs, d.events⟩ i
      { e with job := .running ops (mine ++ [d.table.lowestFree]) }) := by
  have hfd := hinv.delivered i e he hopen
  refine .one he rfl ⟨rfl, rfl, id, .inl, .inl ((hinv.jobs i e he).more hjob rfl)⟩ hgrow hfiles ?_ ?_
  · intro n slot hslot
    have hslot : (d.table.put ⟨desc, .scan i⟩).get n = some slot := hslot
    rw [Table.get_put] at hslot
    split at hslot
    · next hn =>
      cases hslot
      refine .inr ⟨hknown, { e with job := .running ops (mine ++ [d.table.lowestFree]) }, ?_, ?_, ?_⟩
      · exact List.getElem?_set_self (List.getElem?_eq_some_iff.1 he).1
      · rw [hn]
        exact (Table.ne_lowestFree hfd).symm
      · refine ⟨hfile.trans (hfiles _ (hinv.known i e he)).symm, hdesc.imp id ?_⟩
        intro hforeign j e' he'
        by_cases hj : j = i
        · subst hj
          have hself : (d.events.set j { e with job := .running ops (mine ++ [d.table.lowestFree]) })[j]? =
              some e' := he'
          rw [List.getElem?_set_self (List.getElem?_eq_some_iff.1 he).1] at hself
          cases hself
          exact hforeign j e he
        · have hother : (d.events.set i { e with job := .running ops (mine ++ [d.table.lowestFree]) })[j]? =
              some e' := he'
          rw [List.getElem?_set_ne (Ne.symm hj)] at hother
          exact hforeign j e' hother
    · exact .inl hslot
  · intro n slot hslot
    exact .inl (Table.get_put_of_some hslot _)

/-- A step of the job that changes no descriptor. -/
theorem Change.running (hinv : d.Inv) (he : d.events[i]? = some e)
    (hjob : e.job = .running (op :: ops) mine) :
    Change d (d.setEvent i { e with job := .running ops mine }) :=
  .setEvent he rfl rfl Iff.rfl (.inl ((hinv.jobs i e he).same_mine hjob fun _ _ => rfl))

/-- A step of the job that moves an offset. -/
theorem Change.moved (hinv : d.Inv) (he : d.events[i]? = some e)
    (hjob : e.job = .running (op :: ops) mine) (desc : Nat) (f : Nat → Nat) :
    Change d ((d.moveOffset desc f).setEvent i { e with job := .running ops mine }) := by
  have hlength : (d.moveOffset desc f).descs.length = d.descs.length := by
    simp [Daemon.moveOffset]
  have hok : (d.moveOffset desc f).JobOk i { e with job := .running ops mine } :=
    (hinv.jobs i e he).same_mine hjob fun _ _ => rfl
  exact .one he rfl ⟨rfl, rfl, id, .inl, .inl hok⟩ hlength.ge
    (fun desc' _ => fileOf_moveOffset d desc f desc') (fun _ _ => .inl) (fun _ _ => .inl)

/-- A step of the job that closes one of its descriptors. -/
theorem Change.closed (hinv : d.Inv) (he : d.events[i]? = some e)
    (hjob : e.job = .running (op :: ops) mine) {k n : Nat} (hk : mine[k]? = some n) :
    Change d (Daemon.setEvent { d with table := d.table.close n } i
      { e with job := .running ops (mine.eraseIdx k) }) := by
  obtain ⟨hnodup, hget⟩ := hinv.jobs i e he _ mine hjob
  have hok : Daemon.JobOk { d with table := d.table.close n } i
      { e with job := .running ops (mine.eraseIdx k) } := by
    intro ops' mine' hrun
    cases hrun
    refine ⟨hnodup.sublist (List.eraseIdx_sublist ..), fun m hm => ?_⟩
    have hmem : m ∈ mine := (List.eraseIdx_sublist ..).subset hm
    have hne : m ≠ n := by
      rintro rfl
      obtain ⟨l, hl, hget'⟩ := List.mem_eraseIdx_iff_getElem?.1 hm
      obtain ⟨hlt, -⟩ := List.getElem?_eq_some_iff.1 hget'
      exact hl ((List.getElem?_inj hlt hnodup).1 (hget'.trans hk.symm))
    obtain ⟨desc, hdesc⟩ := hget m hmem
    refine ⟨desc, ?_⟩
    rw [Table.get_close, if_neg hne, hdesc]
  refine .one he rfl ⟨rfl, rfl, id, .inl, .inl hok⟩ le_rfl (fun _ _ => rfl) ?_ ?_
  · intro m slot hslot
    have hslot : (d.table.close n).get m = some slot := hslot
    rw [Table.get_close] at hslot
    split at hslot
    · cases hslot
    · exact .inl hslot
  · intro m slot hslot
    by_cases hm : m = n
    · subst hm
      obtain ⟨desc, hdesc⟩ := hget m (List.mem_of_getElem? hk)
      rw [hdesc] at hslot
      cases hslot
      refine .inr ?_
      intro e' he'
      have hself : (d.events.set i { e with job := .running ops (mine.eraseIdx k) })[i]? =
          some e' := he'
      rw [List.getElem?_set_self (List.getElem?_eq_some_iff.1 he).1] at hself
      cases hself
      exact hok
    · refine .inl ?_
      have hkeep : (d.table.close n).get m = some slot := by
        rw [Table.get_close, if_neg hm, hslot]
      exact hkeep

/-- One operation of a job, as long as it goes through the number of an event that is open. -/
theorem Change.perform (hinv : d.Inv) (he : d.events[i]? = some e)
    (hjob : e.job = .running (op :: ops) mine)
    (hopen : op.viaEvent = true → e.handler ≠ .answered) : Change d (d.perform i e mine op ops) := by
  have hsame := Change.running hinv he hjob
  cases op with
  | stat => exact hsame
  | fstat => exact hsame
  | openPath =>
      have hunanswered := hopen rfl
      have hfd := hinv.delivered i e he hunanswered
      have hknown := hinv.known i e he
      simp only [Daemon.perform, hfd]
      refine .addSlot hinv he hjob hunanswered (by simp) (fun n hn => ?_) (by simp) ?_ (.inr ?_)
      · exact fileOf_append d _ _ _ hn
      · rw [fileOf_new]
        obtain ⟨x, hx⟩ : ∃ x, d.descs[e.desc]? = some x := ⟨_, List.getElem?_eq_getElem hknown⟩
        simp [Daemon.fileOf, hx]
      · intro j e' he'
        exact (hinv.known j e' he').ne'
  | dup =>
      have hunanswered := hopen rfl
      have hfd := hinv.delivered i e he hunanswered
      simp only [Daemon.perform, hfd]
      exact .addSlot hinv he hjob hunanswered le_rfl (fun _ _ => rfl) (hinv.known i e he) rfl
        (.inl rfl)
  | read k n =>
      simp only [Daemon.perform]
      split
      · exact hsame
      · exact .moved hinv he hjob _ _
  | seek k =>
      simp only [Daemon.perform]
      split
      · exact hsame
      · exact .moved hinv he hjob _ _
  | close k =>
      simp only [Daemon.perform]
      split
      · exact hsame
      · next n hk => exact .closed hinv he hjob hk

end Perform

/-- The answer to an event closes its number. -/
theorem Change.respond {d : Daemon} (hinv : d.Inv) {i : Nat} {e : Delivered}
    (he : d.events[i]? = some e) (hset : e.handler = .settled) :
    Change d (Daemon.setEvent { d with table := d.table.close e.fd } i
      { e with handler := .answered }) := by
  have hfd := hinv.delivered i e he (by rw [hset]; decide)
  have hclosed : (d.table.close e.fd).get e.fd = none := by rw [Table.get_close, if_pos rfl]
  refine .one he rfl ⟨rfl, rfl, fun _ => rfl, fun _ => .inr hclosed, .inr rfl⟩ le_rfl
    (fun _ _ => rfl) ?_ ?_
  · intro n slot hslot
    have hslot : (d.table.close e.fd).get n = some slot := hslot
    rw [Table.get_close] at hslot
    split at hslot
    · cases hslot
    · exact .inl hslot
  · intro n slot hslot
    by_cases hn : n = e.fd
    · rw [hn, hfd] at hslot
      cases hslot
      refine .inr ?_
      intro e' he'
      have hself : (d.events.set i { e with handler := .answered })[i]? = some e' := he'
      rw [List.getElem?_set_self (List.getElem?_eq_some_iff.1 he).1] at hself
      cases hself
      rfl
    · refine .inl ?_
      have hkeep : (d.table.close e.fd).get n = some slot := by
        rw [Table.get_close, if_neg hn, hslot]
      exact hkeep

/-- A step of an event that lets no job go through the number of an answered event. -/
theorem Change.stepEvent {d : Daemon} (hinv : d.Inv) {i : Nat} {e : Delivered} {x : Step}
    (he : d.events[i]? = some e) (hx : x.event? = some i) (hlate : ¬ d.Late x) :
    Change d (d.stepEvent i e x) := by
  unfold Daemon.stepEvent
  cases x with
  | exempt j =>
      dsimp only
      split
      · next h => exact .setEvent he rfl rfl (by simp [h]) (.inr rfl)
      · exact .refl d
  | submit j ops =>
      dsimp only
      split
      · next h =>
        refine .setEvent he rfl rfl (by simp [h]) (.inl ?_)
        intro ops' mine hrun
        cases hrun
      · exact .refl d
  | start j =>
      dsimp only
      split
      · next ops hjob =>
        refine .setEvent he rfl rfl Iff.rfl (.inl ?_)
        intro ops' mine hrun
        cases hrun
        exact ⟨List.nodup_nil, by simp⟩
      · exact .refl d
  | run j =>
      cases hx
      dsimp only
      split
      · next mine hjob =>
        refine .setEvent he rfl rfl Iff.rfl (.inl ?_)
        intro ops' mine hrun
        cases hrun
      · next op ops mine hjob =>
        refine .perform hinv he hjob ?_
        intro hvia hans
        exact hlate ⟨_, e, mine, op, ⟨rfl, he, ops, hjob⟩, hvia, hans⟩
      · exact .refl d
  | collect j =>
      dsimp only
      split
      · next h => exact .setEvent he rfl rfl (by simp [h.1]) (.inr rfl)
      · exact .refl d
  | timeout j =>
      dsimp only
      split
      · next h =>
        split
        · refine .setEvent he rfl rfl (by simp [h]) (.inl ?_)
          intro ops' mine hrun
          cases hrun
        · exact .setEvent he rfl rfl (by simp [h]) (.inr rfl)
      · exact .refl d
  | respond j =>
      dsimp only
      split
      · next h => exact .respond hinv he h
      · exact .refl d
  | arrive file => exact .refl d
  | openOther file => exact .refl d
  | closeOther n => exact .refl d

theorem Change.openOther {d : Daemon} (hinv : d.Inv) (file : Nat) :
    Change d (d.openFile file .other) where
  events := fun _ e he => ⟨e, he, rfl, rfl, id, .inl, .inr rfl⟩
  length := rfl
  grow := by simp [Daemon.openFile]
  files := fun _ hn => fileOf_append d _ _ _ hn
  put := by
    intro n slot hslot
    have hslot : (d.table.put ⟨d.descs.length, .other⟩).get n = some slot := hslot
    rw [Table.get_put] at hslot
    split at hslot
    · cases hslot
      exact .inr ⟨by simp [Daemon.openFile], fun j e he => (hinv.known j e he).ne'⟩
    · exact .inl hslot
  released := fun _ _ hslot => .inl (Table.get_put_of_some hslot _)

theorem Change.closeOther {d : Daemon} {n desc : Nat} (hn : d.table.get n = some ⟨desc, .other⟩) :
    Change d { d with table := d.table.close n } where
  events := fun _ e he => ⟨e, he, rfl, rfl, id, .inl, .inr rfl⟩
  length := rfl
  grow := le_rfl
  files := fun _ _ => rfl
  put := by
    intro m slot hslot
    have hslot : (d.table.close n).get m = some slot := hslot
    rw [Table.get_close] at hslot
    split at hslot
    · cases hslot
    · exact .inl hslot
  released := by
    intro m slot hslot
    by_cases hm : m = n
    · rw [hm, hn] at hslot
      cases hslot
      exact .inr trivial
    · refine .inl ?_
      have hkeep : (d.table.close n).get m = some slot := by
        rw [Table.get_close, if_neg hm, hslot]
      exact hkeep

/-- The event the kernel has just delivered. -/
def Daemon.delivery (d : Daemon) : Delivered := ⟨d.table.lowestFree, d.descs.length, .deciding, .absent⟩

theorem arrive_event {d : Daemon} {file j : Nat} {e : Delivered}
    (he : (d.step (.arrive file)).events[j]? = some e) :
    d.events[j]? = some e ∨ j = d.events.length ∧ e = d.delivery := by
  have he : (d.events ++ [d.delivery])[j]? = some e := he
  rcases Nat.lt_or_ge j d.events.length with hj | hj
  · rw [List.getElem?_append_left hj] at he
    exact .inl he
  · rw [List.getElem?_append_right hj] at he
    obtain ⟨hlt, hget⟩ := List.getElem?_eq_some_iff.1 he
    simp only [List.length_cons, List.length_nil] at hlt
    refine .inr ⟨by omega, ?_⟩
    simpa using hget.symm

theorem arrive_inv {d : Daemon} (hinv : d.Inv) (file : Nat) : (d.step (.arrive file)).Inv := by
  have htable : ∀ n, (d.step (.arrive file)).table.get n =
      if n = d.table.lowestFree then some ⟨d.descs.length, .event d.events.length⟩
      else d.table.get n := fun n => Table.get_put ..
  have hold : ∀ {n : Nat} {slot : Slot}, d.table.get n = some slot →
      (d.step (.arrive file)).table.get n = some slot := by
    intro n slot hslot
    rw [htable, if_neg (Table.ne_lowestFree hslot), hslot]
  have hlength : (d.step (.arrive file)).descs.length = d.descs.length + 1 := by
    simp [Daemon.step, Daemon.openFile]
  have hfile : ∀ desc < d.descs.length,
      (d.step (.arrive file)).fileOf desc = d.fileOf desc := fun desc hdesc =>
    fileOf_append d _ _ _ hdesc
  have hkeep : ∀ {j : Nat} {e : Delivered}, d.events[j]? = some e →
      (d.step (.arrive file)).events[j]? = some e := by
    intro j e he
    exact (List.getElem?_append_left (List.getElem?_eq_some_iff.1 he).1).trans he
  have hnew : (d.step (.arrive file)).events[d.events.length]? = some d.delivery := by
    exact (List.getElem?_append_right le_rfl).trans (by simp [Daemon.delivery])
  have hforeign : ∀ desc < d.descs.length, d.Foreign desc →
      (d.step (.arrive file)).Foreign desc := by
    intro desc hdesc hf j e he
    rcases arrive_event he with he | ⟨-, rfl⟩
    · exact hf j e he
    · exact hdesc.ne
  refine ⟨?_, ?_, ?_, ?_, ?_⟩
  · intro j e he hopen
    rcases arrive_event he with he | ⟨rfl, rfl⟩
    · exact hold (hinv.delivered j e he hopen)
    · rw [htable]
      exact if_pos rfl
  · intro j e he
    rw [hlength]
    rcases arrive_event he with he | ⟨-, rfl⟩
    · exact (hinv.known j e he).trans (Nat.lt_succ_self _)
    · exact Nat.lt_succ_self _
  · intro i j e e' he he' hij
    rcases arrive_event he with he | ⟨rfl, rfl⟩
    · rcases arrive_event he' with he' | ⟨-, rfl⟩
      · exact hinv.distinct i j e e' he he' hij
      · exact (hinv.known i e he).ne
    · rcases arrive_event he' with he' | ⟨rfl, -⟩
      · exact (hinv.known j e' he').ne'
      · exact absurd rfl hij
  · intro n slot hslot
    rw [htable] at hslot
    split at hslot
    · next hn =>
      cases hslot
      exact ⟨by rw [hlength]; exact Nat.lt_succ_self _, d.delivery, hnew, hn, rfl,
        by simp [Daemon.delivery]⟩
    · obtain ⟨hknown, howner⟩ := hinv.slots n slot hslot
      refine ⟨by rw [hlength]; exact hknown.trans (Nat.lt_succ_self _), ?_⟩
      cases ho : slot.owner with
      | other =>
          rw [ho] at howner
          exact hforeign _ hknown howner
      | event j =>
          rw [ho] at howner
          obtain ⟨e, he, hrest⟩ := howner
          exact ⟨e, hkeep he, hrest⟩
      | scan j =>
          rw [ho] at howner
          obtain ⟨e, he, hn, hsame, hdesc⟩ := howner
          refine ⟨e, hkeep he, hn, ?_, hdesc.imp id (hforeign _ hknown)⟩
          rw [hfile _ hknown, hfile _ (hinv.known j e he)]
          exact hsame
  · intro j e he
    rcases arrive_event he with he | ⟨-, rfl⟩
    · intro ops mine hrun
      obtain ⟨hnodup, hmine⟩ := hinv.jobs j e he ops mine hrun
      refine ⟨hnodup, fun n hn => ?_⟩
      obtain ⟨desc, hdesc⟩ := hmine n hn
      exact ⟨desc, hold hdesc⟩
    · intro ops mine hrun
      cases hrun

/-- A step that lets no job go through the number of an answered event keeps the invariant. -/
theorem step_inv {d : Daemon} (hinv : d.Inv) {x : Step} (hlate : ¬ d.Late x) :
    (d.step x).Inv := by
  have hevent : ∀ i, x.event? = some i →
      (match (d.events[i]?).map fun e => (i, e) with
        | some (i, e) => d.stepEvent i e x
        | none => d).Inv := by
    intro i hx
    cases he : d.events[i]? with
    | none => exact hinv
    | some e => exact hinv.change (.stepEvent hinv he hx hlate)
  cases x with
  | arrive file => exact arrive_inv hinv file
  | openOther file => exact hinv.change (.openOther hinv file)
  | closeOther n =>
      simp only [Daemon.step]
      split
      · next desc hn => exact hinv.change (.closeOther hn)
      · exact hinv
  | exempt i => exact hevent i rfl
  | submit i ops => exact hevent i rfl
  | start i => exact hevent i rfl
  | run i => exact hevent i rfl
  | collect i => exact hevent i rfl
  | timeout i => exact hevent i rfl
  | respond i => exact hevent i rfl

theorem start_inv (files : List Nat) : (Daemon.start files).Inv := by
  have key : ∀ (files : List Nat) (d : Daemon), d.Inv →
      (files.foldl (fun d file => d.openFile file .other) d).Inv := by
    intro files
    induction files with
    | nil => exact fun d hd => hd
    | cons file files ih => exact fun d hd => ih _ (hd.change (.openOther hd file))
  refine key files _ ⟨?_, ?_, ?_, ?_, ?_⟩
  · intro i e he
    cases he
  · intro i e he
    cases he
  · intro i j e e' he
    cases he
  · intro n slot hslot
    cases hslot
  · intro i e he
    cases he

/-! ## When the analyses keep to their events -/

theorem afterSteps_concat (files : List Nat) (steps : List Step) (x : Step) :
    afterSteps files (steps ++ [x]) = (afterSteps files steps).step x := by
  rw [afterSteps, List.foldl_append]
  rfl

/-- Under the invariant, a job whose event is open keeps to it. -/
theorem ownFile_of_inv {d : Daemon} (hinv : d.Inv) {x : Step} (hlate : ¬ d.Late x) {i : Nat}
    {e : Delivered} {mine : List Nat} {op : JobOp} (hnext : d.Next x i e mine op) :
    OwnFile d i e mine op := by
  obtain ⟨hx, he, ops, hjob⟩ := hnext
  have hfd : op.viaEvent = true → d.table.get e.fd = some ⟨e.desc, .event i⟩ := by
    intro hvia
    refine hinv.delivered i e he fun hans => ?_
    exact hlate ⟨i, e, mine, op, ⟨hx, he, ops, hjob⟩, hvia, hans⟩
  -- a descriptor the job has opened itself
  have hmine : ∀ (k : Nat) (slot : Slot), (mine[k]?).bind d.table.get = some slot →
      d.fileOf slot.desc = d.fileOf e.desc ∧ (slot.desc = e.desc ∨ d.Foreign slot.desc) := by
    intro k slot hslot
    obtain ⟨n, hn, hget⟩ := Option.bind_eq_some_iff.1 hslot
    obtain ⟨-, hjobs⟩ := hinv.jobs i e he _ mine hjob
    obtain ⟨desc, hdesc⟩ := hjobs n (List.mem_of_getElem? hn)
    rw [hdesc] at hget
    cases hget
    obtain ⟨-, e', he', -, hfile, hown⟩ := hinv.slots n _ hdesc
    rw [he] at he'
    cases he'
    exact ⟨hfile, hown⟩
  refine ⟨fun hvia => ⟨_, hfd hvia, rfl⟩, ?_, ?_⟩
  · intro slot hslot
    cases op with
    | read k n => exact (hmine k slot hslot).1
    | seek k => exact (hmine k slot hslot).1
    | close k => exact (hmine k slot hslot).1
    | _ =>
        have hsame := (hfd rfl).symm.trans hslot
        cases hsame
        rfl
  · intro hmoves slot hslot j e' hj he'
    have hown : slot.desc = e.desc ∨ d.Foreign slot.desc := by
      cases op with
      | read k n => exact (hmine k slot hslot).2
      | seek k => exact (hmine k slot hslot).2
      | _ => cases hmoves
    rcases hown with hdesc | hforeign
    · rw [hdesc]
      exact hinv.distinct i j e e' he he' (Ne.symm hj)
    · exact hforeign j e' he'

/-- Under the invariant, the number of an answered event does not refer to its description. -/
theorem not_ownFile_of_late {d : Daemon} (hinv : d.Inv) {x : Step} (hlate : d.Late x) :
    ∃ i e mine op, d.Next x i e mine op ∧ ¬ OwnFile d i e mine op := by
  obtain ⟨i, e, mine, op, hnext, hvia, hans⟩ := hlate
  refine ⟨i, e, mine, op, hnext, fun hown => ?_⟩
  obtain ⟨slot, hslot, hdesc⟩ := hown.number hvia
  obtain ⟨-, howner⟩ := hinv.slots _ slot hslot
  have he := hnext.2.1
  cases ho : slot.owner with
  | other =>
      rw [ho] at howner
      exact howner i e he hdesc
  | event j =>
      rw [ho] at howner
      obtain ⟨e', he', -, hdesc', hopen⟩ := howner
      by_cases hj : i = j
      · subst hj
        rw [he] at he'
        cases he'
        exact hopen hans
      · exact hinv.distinct i j e e' he he' hj (hdesc.symm.trans hdesc')
  | scan j =>
      rw [ho] at howner
      obtain ⟨e', he', hne, -, hdesc'⟩ := howner
      by_cases hj : i = j
      · subst hj
        rw [he] at he'
        cases he'
        exact hne rfl
      · rcases hdesc' with hdesc' | hforeign
        · exact hinv.distinct i j e e' he he' hj (hdesc.symm.trans hdesc')
        · exact hforeign i e he hdesc

/-- The invariant holds along a run without a late use. -/
theorem afterSteps_inv (files : List Nat) {steps : List Step} (h : ¬ LateUse files steps) :
    (afterSteps files steps).Inv := by
  induction steps using List.reverseRecOn with
  | nil => exact start_inv files
  | append_singleton steps x ih =>
      have hbefore : ¬ LateUse files steps := by
        rintro ⟨before, y, hpre, hlate⟩
        exact h ⟨before, y, hpre.trans (List.prefix_append ..), hlate⟩
      rw [afterSteps_concat]
      exact step_inv (ih hbefore) fun hlate => h ⟨steps, x, List.prefix_rfl, hlate⟩

/-- A late use breaks the property at the first one. -/
theorem first_late_use {files : List Nat} {steps : List Step} (h : LateUse files steps) :
    ∃ before x, before ++ [x] <+: steps ∧ ¬ LateUse files before ∧
      (afterSteps files before).Late x := by
  induction steps using List.reverseRecOn with
  | nil =>
      obtain ⟨before, x, hpre, -⟩ := h
      exact absurd (List.prefix_nil.1 hpre) (by simp)
  | append_singleton steps y ih =>
      by_cases hearlier : LateUse files steps
      · obtain ⟨before, x, hpre, hrest⟩ := ih hearlier
        exact ⟨before, x, hpre.trans (List.prefix_append ..), hrest⟩
      · obtain ⟨before, x, hpre, hlate⟩ := h
        rcases List.prefix_concat_iff.1 hpre with heq | hpre
        · obtain ⟨rfl, hx⟩ := List.append_inj' heq rfl
          cases hx
          exact ⟨before, y, List.prefix_rfl, hearlier, hlate⟩
        · exact absurd ⟨before, x, hpre, hlate⟩ hearlier

/-- In a run, every analysis keeps to the file and to the offset of its own event exactly when no job
    goes through the number of its event after the answer has closed it. -/
theorem own_file_only_iff (files : List Nat) (steps : List Step) :
    OwnFileOnly files steps ↔ ¬ LateUse files steps := by
  constructor
  · intro hown hlate
    obtain ⟨before, x, hpre, hearlier, hlate⟩ := first_late_use hlate
    obtain ⟨i, e, mine, op, hnext, hnot⟩ :=
      not_ownFile_of_late (afterSteps_inv files hearlier) hlate
    exact hnot (hown before x hpre i e mine op hnext)
  · intro hlate before x hpre i e mine op hnext
    have hearlier : ¬ LateUse files before := by
      rintro ⟨before', y, hpre', hlate'⟩
      exact hlate ⟨before', y, hpre'.trans ((List.prefix_append ..).trans hpre), hlate'⟩
    exact ownFile_of_inv (afterSteps_inv files hearlier) (fun h => hlate ⟨before, x, hpre, h⟩) hnext

/-! ## A scan that outlives its event -/

/-- The scan of the first event is at its entropy pass when the wait times out; the answer closes
    number 3, and the kernel delivers the next event under it. -/
def slowScan : List Step :=
  [.arrive 10, .submit 0 (scanOps true false 1), .start 0] ++ List.replicate 11 (.run 0) ++
    [.timeout 0, .respond 0, .arrive 20, .run 0, .run 0]

/-- The job of the first event duplicates and rewinds the descriptor of the second one. -/
theorem slow_scan_reads_next_event : ¬ OwnFileOnly [0, 1, 2] slowScan := by
  intro hown
  have hnext := hown (slowScan.dropLast) (.run 0) (by decide) 0 _ _ _ ⟨rfl, rfl, _, rfl⟩
  exact absurd (hnext.offset rfl _ rfl 1 _ (by decide) rfl) (by decide)

end Elyra.Fanotify
