import Elyra.Monitor.Windows

set_option autoImplicit false

/-! # Watching a directory

`ReadDirectoryChangesBackend._watch_root`: the thread that reads the changes under a root and emits
events. A rename comes as two notifications, the old name and the new one; the old one is kept until the
new one comes. An overflow, a failed read or a name outside the root does not touch it, so it is paired
across them too (`rename_reliable_iff`); where the thread ends inside the loop, it is dropped
(`old_name_reported_iff`). -/

namespace Elyra.Monitor

open Elyra.Python

/-! ## Events -/

def actionAdded : Nat := 1
def actionRemoved : Nat := 2
def actionModified : Nat := 3
def actionRenamedOldName : Nat := 4
def actionRenamedNewName : Nat := 5

/-- `_ACTION_TO_EVENT.get(action)` -/
def actionToEvent (action : Nat) : Option EventType :=
  if action = actionAdded then some .fileCreated
  else if action = actionRemoved then some .fileDeleted
  else if action = actionModified then some .fileModified
  else none

/-- What `_emit` and `_emit_overflow` are called with. -/
structure Emission where
  eventType : EventType
  path : PyStr
  previousPath : Option PyStr := none
  reason : Option PyStr := none
  deriving DecidableEq, Repr

/-- `self._emit_overflow(root, reason)` -/
def overflowOf (root : PyStr) (reason : String) : Emission :=
  { eventType := .overflow, path := root, reason := some (py reason) }

/-- The event for an old name that stays alone. -/
def flush (pending : Option PyStr) : List Emission :=
  pending.toList.map fun path => { eventType := .fileDeleted, path := path }

/-- What the thread learns of, one thing after the other. -/
inductive Item where
  | notification (action : Nat) (path : PyStr)
  /-- A name that `_join_root` does not accept. -/
  | rejected
  /-- An empty list of changes. -/
  | overflow
  | readError
  deriving DecidableEq, Repr

/-- What is emitted for an item, and the old name that is kept after it. -/
def handle (root : PyStr) (pending : Option PyStr) : Item → List Emission × Option PyStr
  | .readError => ([overflowOf root "READ_DIRECTORY_CHANGES_FAILED"], pending)
  | .overflow => ([overflowOf root "KERNEL_NOTIFICATION_BUFFER_OVERFLOW"], pending)
  | .rejected => ([overflowOf root "INVALID_RELATIVE_PATH_FROM_PROVIDER"], pending)
  | .notification action path =>
      if action = actionRenamedOldName then (flush pending, some path)
      else if action = actionRenamedNewName then
        ([{ eventType := .fileRenamed, path := path, previousPath := pending }], none)
      else
        (flush pending ++ (actionToEvent action).toList.map fun type => { eventType := type, path := path },
          none)

/-! ## The thread -/

/-- A root, with `_join_root`: the path of a name under it. -/
structure Root where
  path : PyStr
  join : PyStr → Option PyStr

/-- `_read_changes`; the failure is an `OSError`. -/
inductive Read where
  | failed
  | changes (list : List (Nat × PyStr))
  deriving DecidableEq, Repr

/-- A turn of the loop: what is read, and whether `_running` is cleared when the thread looks at it after
    the read. -/
structure Turn where
  read : Read
  stopped : Bool
  deriving DecidableEq, Repr

/-- What the thread learns of in a change. -/
def Root.item (root : Root) (change : Nat × PyStr) : Item :=
  match root.join change.2 with
  | none => .rejected
  | some path => .notification change.1 path

/-- What the thread learns of in a turn. -/
def Turn.items (root : Root) (t : Turn) : List Item :=
  match t.read with
  | .failed => [.readError]
  | .changes [] => [.overflow]
  | .changes list => list.map root.item

/-- An item with what has been emitted for it. -/
structure Entry where
  item : Item
  emitted : List Emission
  deriving DecidableEq, Repr

def handleAll (root : Root) : Option PyStr → List Item → List Entry × Option PyStr
  | pending, [] => ([], pending)
  | pending, item :: items =>
      let (emitted, pending) := handle root.path pending item
      let (entries, pending) := handleAll root pending items
      (⟨item, emitted⟩ :: entries, pending)

/-- A run of the thread: what it has done in the loop, and what it emits after it. -/
structure Watch where
  entries : List Entry
  last : List Emission

/-- `_watch_root`, from a turn on. After the last turn the loop condition is false. -/
def watchFrom (root : Root) : Option PyStr → List Turn → Watch
  | pending, [] => ⟨[], flush pending⟩
  | pending, t :: turns =>
      if t.stopped then ⟨[], []⟩
      else
        let (entries, pending) := handleAll root pending (t.items root)
        let w := watchFrom root pending turns
        ⟨entries ++ w.entries, w.last⟩

/-- `_watch_root` -/
def watchRoot (root : Root) (turns : List Turn) : Watch := watchFrom root none turns

/-- The events of a run, in order. -/
def Watch.events (w : Watch) : List Emission := w.entries.flatMap Entry.emitted ++ w.last

/-- Whether a run ends inside the loop. -/
def endsInside (turns : List Turn) : Bool := turns.any Turn.stopped

/-- What a run learns of: the turns before the one in which it is stopped. -/
def itemsOf (root : Root) (turns : List Turn) : List Item :=
  (turns.takeWhile fun t => !t.stopped).flatMap (Turn.items root)

variable {root : Root} {pending : Option PyStr} {items : List Item} {turns : List Turn}

theorem handleAll_append (root : Root) (pending : Option PyStr) (items items' : List Item) :
    handleAll root pending (items ++ items') =
      ((handleAll root pending items).1 ++
        (handleAll root (handleAll root pending items).2 items').1,
        (handleAll root (handleAll root pending items).2 items').2) := by
  induction items generalizing pending with
  | nil => rfl
  | cons item items ih =>
      simp only [List.cons_append, handleAll, ih]

/-- **A run is one pass over what it learns of.** -/
theorem watchFrom_eq (root : Root) (pending : Option PyStr) (turns : List Turn) :
    watchFrom root pending turns =
      ⟨(handleAll root pending (itemsOf root turns)).1,
        if endsInside turns then []
        else flush (handleAll root pending (itemsOf root turns)).2⟩ := by
  induction turns generalizing pending with
  | nil => rfl
  | cons t turns ih =>
      cases hstopped : t.stopped with
      | true =>
          simp only [watchFrom, itemsOf, endsInside, hstopped, if_true, List.takeWhile_cons,
            Bool.not_true, Bool.false_eq_true, if_false, List.flatMap_nil, handleAll, List.any_cons,
            Bool.true_or]
      | false =>
          simp only [watchFrom, itemsOf, endsInside, hstopped, Bool.false_eq_true, if_false,
            List.takeWhile_cons, Bool.not_false, if_true, List.flatMap_cons, List.any_cons,
            Bool.false_or, ih, handleAll_append]
          rfl

theorem handleAll_items (root : Root) (pending : Option PyStr) (items : List Item) :
    (handleAll root pending items).1.map Entry.item = items := by
  induction items generalizing pending with
  | nil => rfl
  | cons item items ih => exact congrArg (item :: ·) (ih _)

/-- What is emitted for an item depends on what has been learnt before it. -/
theorem handleAll_entry {before after : List Entry} {entry : Entry}
    (h : (handleAll root pending items).1 = before ++ entry :: after) :
    entry.emitted =
      (handle root.path (handleAll root pending (before.map Entry.item)).2 entry.item).1 := by
  induction before generalizing pending items with
  | nil =>
      cases items with
      | nil => cases h
      | cons item items =>
          obtain ⟨rfl, -⟩ := List.cons.inj h
          rfl
  | cons first before ih =>
      cases items with
      | nil => cases h
      | cons item items =>
          obtain ⟨rfl, hrest⟩ := List.cons.inj h
          exact ih hrest

/-! ## The old name that is kept -/

/-- An item that is no notification of a path under the root. -/
def Item.isInterruption : Item → Bool
  | .notification _ _ => false
  | _ => true

/-- The notification of an old name. -/
def Item.oldName (path : PyStr) : Item := .notification actionRenamedOldName path

theorem handle_interruption {item : Item} (h : item.isInterruption = true) :
    (handle root.path pending item).2 = pending := by
  cases item with
  | notification action path => cases h
  | rejected | overflow | readError => rfl

theorem handle_notification (root : PyStr) (pending : Option PyStr) (action : Nat) (path : PyStr) :
    (handle root pending (.notification action path)).2 =
      if action = actionRenamedOldName then some path else none := by
  rw [handle]
  by_cases hold : action = actionRenamedOldName
  · rw [if_pos hold, if_pos hold]
  · rw [if_neg hold, if_neg hold]
    split <;> rfl

/-- **An old name is kept** exactly if nothing but interruptions came after it. -/
theorem kept_iff (root : Root) (items : List Item) (path : PyStr) :
    (handleAll root none items).2 = some path ↔
      ∃ before gap, items = before ++ Item.oldName path :: gap ∧
        ∀ item ∈ gap, item.isInterruption = true := by
  induction items using List.reverseRecOn with
  | nil => simp [handleAll]
  | append_singleton items item ih =>
      have hlast : (handleAll root none (items ++ [item])).2 =
          (handle root.path (handleAll root none items).2 item).2 := by
        rw [handleAll_append]
        rfl
      rw [hlast]
      cases hitem : item.isInterruption with
      | true =>
          rw [handle_interruption hitem, ih]
          constructor
          · rintro ⟨before, gap, rfl, hgap⟩
            refine ⟨before, gap ++ [item], by simp, ?_⟩
            exact List.forall_mem_append.2 ⟨hgap, List.forall_mem_singleton.2 hitem⟩
          · rintro ⟨before, gap, heq, hgap⟩
            -- the item is the last of the gap
            induction gap using List.reverseRecOn with
            | nil =>
                obtain ⟨-, hsame⟩ := List.append_inj' heq rfl
                obtain rfl := List.singleton_inj.1 hsame
                cases hitem
            | append_singleton gap last _ =>
                rw [← List.cons_append, ← List.append_assoc] at heq
                obtain ⟨rfl, -⟩ := List.append_inj' heq rfl
                exact ⟨before, gap, rfl, fun i hi => hgap i (List.mem_append_left _ hi)⟩
      | false =>
          cases item with
          | rejected | overflow | readError => cases hitem
          | notification action name =>
              rw [handle_notification]
              constructor
              · intro h
                split at h
                · next haction =>
                  cases h
                  exact ⟨items, [], by rw [haction]; rfl, fun _ hi => nomatch hi⟩
                · cases h
              · rintro ⟨before, gap, heq, hgap⟩
                induction gap using List.reverseRecOn with
                | nil =>
                    obtain ⟨-, hsame⟩ := List.append_inj' heq rfl
                    obtain ⟨rfl, rfl⟩ := Item.notification.inj (List.singleton_inj.1 hsame)
                    exact if_pos rfl
                | append_singleton gap last _ =>
                    rw [← List.cons_append, ← List.append_assoc] at heq
                    obtain ⟨-, hsame⟩ := List.append_inj' heq rfl
                    obtain rfl := List.singleton_inj.1 hsame
                    have hlast := hgap _ (List.mem_append_right _ (List.mem_singleton_self _))
                    cases hitem.symm.trans hlast

/-! ## Renames -/

/-- The notification of a new name. -/
def Item.newName (path : PyStr) : Item := .notification actionRenamedNewName path

/-- A file is reported as renamed from a path only where the old name of that path is the last thing that
    was learnt of before its new name. -/
structure Watch.Reliable (w : Watch) : Prop where
  paired : ∀ before entry after, w.entries = before ++ entry :: after → ∀ event ∈ entry.emitted,
    ∀ path, event.eventType = .fileRenamed → event.previousPath = some path →
      (∃ new, entry.item = Item.newName new) ∧
        ∃ earlier previous, before = earlier ++ [previous] ∧ previous.item = Item.oldName path
  last : ∀ event ∈ w.last, event.eventType ≠ .fileRenamed

/-- Between an old name and the new name after it, something else has happened that is no
    notification. -/
def RenameInterrupted (items : List Item) : Prop :=
  ∃ before old gap new after, items = before ++ Item.oldName old :: (gap ++ Item.newName new :: after) ∧
    gap ≠ [] ∧ ∀ item ∈ gap, item.isInterruption = true

theorem flush_renamed {event : Emission} (h : event ∈ flush pending) :
    event.eventType ≠ .fileRenamed := by
  obtain ⟨path, -, rfl⟩ := List.mem_map.1 h
  exact nofun

/-- Where a rename is emitted. -/
theorem handle_renamed {item : Item} {event : Emission} {old : PyStr}
    (h : event ∈ (handle root.path pending item).1) (htype : event.eventType = .fileRenamed)
    (hold : event.previousPath = some old) : pending = some old ∧ ∃ new, item = Item.newName new := by
  cases item with
  | rejected | overflow | readError =>
      obtain rfl := List.mem_singleton.1 h
      cases htype
  | notification action path =>
      rw [handle] at h
      split_ifs at h with holdName hnewName
      · exact absurd htype (flush_renamed h)
      · obtain rfl := List.mem_singleton.1 h
        exact ⟨hold, path, by rw [hnewName]; rfl⟩
      · rcases List.mem_append.1 h with h | h
        · exact absurd htype (flush_renamed h)
        · obtain ⟨type, -, rfl⟩ := List.mem_map.1 h
          cases hold

/-- What is emitted for a new name. -/
theorem handle_newName (root : PyStr) (pending : Option PyStr) (new : PyStr) :
    handle root pending (Item.newName new) =
      ([{ eventType := .fileRenamed, path := new, previousPath := pending }], none) := rfl

/-- **Renames are paired reliably** exactly if no old name is separated from its new name by an overflow, a
    failed read or a rejected name. -/
theorem rename_reliable_iff (root : Root) (turns : List Turn) :
    (watchRoot root turns).Reliable ↔ ¬ RenameInterrupted (itemsOf root turns) := by
  have hentries : (watchRoot root turns).entries = (handleAll root none (itemsOf root turns)).1 := by
    rw [watchRoot, watchFrom_eq]
  have hitems := handleAll_items root none (itemsOf root turns)
  rw [← hentries] at hitems
  constructor
  · rintro hreliable ⟨before, old, gap, new, after, heq, hgap, hinterruptions⟩
    have hsplit : (watchRoot root turns).entries.map Entry.item =
        (before ++ Item.oldName old :: gap) ++ Item.newName new :: after := by
      rw [hitems, heq, List.append_assoc, List.cons_append]
    obtain ⟨earlier, rest, hw, hearlier, hrest⟩ := List.map_eq_append_iff.1 hsplit
    obtain ⟨entry, later, rfl, hentry, -⟩ := List.map_eq_cons_iff.1 hrest
    have hkept : (handleAll root none (earlier.map Entry.item)).2 = some old :=
      (kept_iff root _ old).2 ⟨before, gap, hearlier, hinterruptions⟩
    have hemitted : entry.emitted =
        [{ eventType := .fileRenamed, path := new, previousPath := some old }] := by
      rw [handleAll_entry (hentries.symm.trans hw), hkept, hentry, handle_newName]
    obtain ⟨-, first, previous, rfl, hprevious⟩ := hreliable.paired earlier entry later hw _
      (hemitted ▸ List.mem_singleton_self _) old rfl rfl
    obtain ⟨gap, last, rfl⟩ := (List.eq_nil_or_concat' gap).resolve_left hgap
    have hlast : previous.item = last := by
      rw [List.map_append, ← List.cons_append, ← List.append_assoc] at hearlier
      exact List.singleton_inj.1 (List.append_inj' hearlier rfl).2
    have hinterruption := hinterruptions last (by simp)
    rw [← hlast, hprevious] at hinterruption
    cases hinterruption
  · intro hnot
    refine ⟨fun before entry after hw event hevent old htype hold => ?_, ?_⟩
    · rw [handleAll_entry (hentries.symm.trans hw)] at hevent
      obtain ⟨hkept, new, hnew⟩ := handle_renamed hevent htype hold
      obtain ⟨first, gap, hbefore, hgap⟩ := (kept_iff root _ old).1 hkept
      refine ⟨⟨new, hnew⟩, ?_⟩
      have hnil : gap = [] := by
        by_contra hne
        refine hnot ⟨first, old, gap, new, after.map Entry.item, ?_, hne, hgap⟩
        rw [← hitems, hw, List.map_append, List.map_cons, hbefore, hnew, List.append_assoc,
          List.cons_append]
      rw [hnil] at hbefore
      obtain ⟨earlier, rest, hsplit, -, hrest⟩ := List.map_eq_append_iff.1 hbefore
      obtain ⟨previous, later, rfl, hprevious, hlater⟩ := List.map_eq_cons_iff.1 hrest
      obtain rfl := List.map_eq_nil_iff.1 hlater
      exact ⟨earlier, previous, hsplit, hprevious⟩
    · intro event hevent
      rw [watchRoot, watchFrom_eq] at hevent
      simp only at hevent
      split at hevent
      · cases hevent
      · exact flush_renamed hevent

/-- Names under `C:\\Users`. -/
def sampleRoot : Root := ⟨py "C:\\Users", fun name => some (py "C:\\Users\\" ++ name)⟩

/-- `a` is renamed; the kernel's buffer overflows, and the next thing that is heard of is that something
    else got the name `b`. -/
def overflowBetween : List Turn :=
  [⟨.changes [(actionRenamedOldName, py "a")], false⟩, ⟨.changes [], false⟩,
    ⟨.changes [(actionRenamedNewName, py "b")], false⟩]

theorem overflow_between_paired : ¬ (watchRoot sampleRoot overflowBetween).Reliable := by
  intro h
  obtain ⟨-, earlier, previous, hsplit, hprevious⟩ := h.paired
    [⟨Item.oldName (py "C:\\Users\\a"), []⟩,
      ⟨.overflow, [overflowOf sampleRoot.path "KERNEL_NOTIFICATION_BUFFER_OVERFLOW"]⟩]
    ⟨Item.newName (py "C:\\Users\\b"), [⟨.fileRenamed, py "C:\\Users\\b", some (py "C:\\Users\\a"), none⟩]⟩ []
    rfl _ (List.mem_singleton_self _) (py "C:\\Users\\a") rfl rfl
  have hlast := (@List.append_inj' _ [_] _ _ _ hsplit rfl).2
  obtain rfl := List.singleton_inj.1 hlast
  cases hprevious

/-! ## Old names -/

/-- The path under which an event reports an old name, or a file that is gone. -/
def Emission.reports (event : Emission) : List PyStr :=
  match event.eventType with
  | .fileRenamed => event.previousPath.toList
  | .fileDeleted => [event.path]
  | _ => []

/-- The paths whose old names are notified. -/
def Item.oldNames : Item → List PyStr
  | .notification action path => if action = actionRenamedOldName then [path] else []
  | _ => []

/-- The paths that are notified as removed, and have an event for that. -/
def Item.removed : Item → List PyStr
  | .notification action path => if action = actionRemoved then [path] else []
  | _ => []

/-- Every old name that the run learns of is reported once: besides the removals, what is reported as
    renamed from or as deleted are the old names. -/
def OldNamesReported (root : Root) (turns : List Turn) : Prop :=
  ((watchRoot root turns).events.flatMap Emission.reports).Perm
    ((itemsOf root turns).flatMap Item.oldNames ++ (itemsOf root turns).flatMap Item.removed)

/-- Changes may as well come in several reads. -/
def SplitsAlike (root : Root) (turns : List Turn) : Prop :=
  ∀ before after chunks, chunks ≠ [] → (∀ chunk ∈ chunks, chunk ≠ []) →
    turns = before ++ ⟨.changes chunks.flatten, false⟩ :: after →
      (watchRoot root (before ++ (chunks.map fun chunk => ⟨.changes chunk, false⟩) ++ after)).events =
        (watchRoot root turns).events

/-- The run ends inside the loop while an old name is kept. -/
def DropsOldName (root : Root) (turns : List Turn) : Prop :=
  endsInside turns = true ∧ ∃ before old gap, itemsOf root turns = before ++ Item.oldName old :: gap ∧
    ∀ item ∈ gap, item.isInterruption = true

theorem flush_reports (pending : Option PyStr) :
    (flush pending).flatMap Emission.reports = pending.toList := by
  cases pending <;> rfl

/-- One item: the old name kept before it and its own are reported or kept. -/
theorem handle_reports (root : PyStr) (pending : Option PyStr) (item : Item) :
    ((handle root pending item).1.flatMap Emission.reports ++
      (handle root pending item).2.toList).Perm
        (pending.toList ++ (item.oldNames ++ item.removed)) := by
  cases item with
  | rejected | overflow | readError =>
      show pending.toList.Perm (pending.toList ++ [])
      rw [List.append_nil]
  | notification action path =>
      by_cases hold : action = actionRenamedOldName
      · subst hold
        show ((flush pending).flatMap Emission.reports ++ [path]).Perm (pending.toList ++ ([path] ++ []))
        rw [flush_reports]
        rfl
      · by_cases hnew : action = actionRenamedNewName
        · subst hnew
          show ((pending.toList ++ []) ++ []).Perm (pending.toList ++ [])
          rw [List.append_nil, List.append_nil]
        · have hown : ((actionToEvent action).toList.map fun type =>
              ({ eventType := type, path := path } : Emission)).flatMap Emission.reports =
                Item.removed (.notification action path) := by
            unfold actionToEvent Item.removed
            by_cases hadded : action = actionAdded
            · subst hadded
              rfl
            · by_cases hremoved : action = actionRemoved
              · subst hremoved
                rfl
              · simp only [if_neg hadded, if_neg hremoved]
                split <;> rfl
          simp only [handle, if_neg hold, if_neg hnew, List.flatMap_append, hown, flush_reports,
            Item.oldNames, Option.toList_none, List.append_nil, List.nil_append]
          rfl

theorem handleAll_reports (root : Root) (pending : Option PyStr) (items : List Item) :
    (((handleAll root pending items).1.flatMap Entry.emitted).flatMap Emission.reports ++
      (handleAll root pending items).2.toList).Perm
        (pending.toList ++ (items.flatMap Item.oldNames ++ items.flatMap Item.removed)) := by
  induction items generalizing pending with
  | nil =>
      show pending.toList.Perm (pending.toList ++ [])
      rw [List.append_nil]
  | cons item items ih =>
      have hitem := handle_reports root.path pending item
      have hrest := ih (handle root.path pending item).2
      rw [← Multiset.coe_eq_coe, ← Multiset.coe_add, ← Multiset.coe_add, ← Multiset.coe_add] at hitem hrest
      simp only [handleAll, List.flatMap_cons, List.flatMap_append, List.append_assoc]
      rw [← Multiset.coe_eq_coe]
      simp only [← Multiset.coe_add] at hitem hrest ⊢
      rw [hrest, ← add_assoc, hitem]
      abel

theorem itemsOf_append (root : Root) (turns turns' : List Turn) :
    itemsOf root (turns ++ turns') =
      itemsOf root turns ++ if endsInside turns then [] else itemsOf root turns' := by
  induction turns with
  | nil => rfl
  | cons t turns ih =>
      simp only [itemsOf, endsInside] at ih
      cases hstopped : t.stopped with
      | true => simp [itemsOf, endsInside, hstopped]
      | false => simp [itemsOf, endsInside, hstopped, ih]

theorem items_changes (root : Root) {chunk : List (Nat × PyStr)} (h : chunk ≠ []) :
    Turn.items root ⟨.changes chunk, false⟩ = chunk.map root.item := by
  cases chunk with
  | nil => exact absurd rfl h
  | cons change chunk => rfl

theorem endsInside_chunks (chunks : List (List (Nat × PyStr))) :
    endsInside (chunks.map fun chunk => ⟨.changes chunk, false⟩) = false := by
  induction chunks with
  | nil => rfl
  | cons chunk chunks ih => exact ih

theorem itemsOf_chunks (root : Root) {chunks : List (List (Nat × PyStr))}
    (h : ∀ chunk ∈ chunks, chunk ≠ []) :
    itemsOf root (chunks.map fun chunk => ⟨.changes chunk, false⟩) =
      chunks.flatten.map root.item := by
  induction chunks with
  | nil => rfl
  | cons chunk chunks ih =>
      obtain ⟨hchunk, hchunks⟩ := List.forall_mem_cons.1 h
      rw [List.map_cons, List.flatten_cons, List.map_append, ← ih hchunks, ← items_changes root hchunk]
      rfl

theorem splitsAlike (root : Root) (turns : List Turn) : SplitsAlike root turns := by
  intro before after chunks hchunks hchunk hturns
  subst hturns
  have hflat : chunks.flatten ≠ [] := by
    obtain ⟨chunk, hmem⟩ := List.exists_mem_of_ne_nil chunks hchunks
    exact fun hnil => hchunk chunk hmem (List.flatten_eq_nil_iff.1 hnil chunk hmem)
  have hone : itemsOf root [⟨.changes chunks.flatten, false⟩] = chunks.flatten.map root.item := by
    rw [← items_changes root hflat]
    exact List.append_nil _
  have hitems : itemsOf root (before ++ (chunks.map fun chunk => ⟨.changes chunk, false⟩) ++ after) =
      itemsOf root (before ++ ⟨.changes chunks.flatten, false⟩ :: after) := by
    rw [← List.singleton_append, ← List.append_assoc before, itemsOf_append, itemsOf_append,
      itemsOf_append root (before ++ _), itemsOf_append root before, itemsOf_chunks root hchunk, hone]
    simp only [endsInside, List.any_append, List.any_cons, List.any_nil]
    have hchunks := endsInside_chunks chunks
    rw [endsInside] at hchunks
    rw [hchunks]
    rfl
  have hinside : endsInside (before ++ (chunks.map fun chunk => ⟨.changes chunk, false⟩) ++ after) =
      endsInside (before ++ ⟨.changes chunks.flatten, false⟩ :: after) := by
    have hchunks := endsInside_chunks chunks
    rw [endsInside] at hchunks
    simp only [endsInside, List.any_append, List.any_cons, hchunks, Bool.or_false, Bool.false_or]
  rw [watchRoot, watchRoot, watchFrom_eq, watchFrom_eq, hitems, hinside]

/-- `a` is renamed, and the monitor is stopped before the new name comes. -/
def stoppedBetween : List Turn :=
  [⟨.changes [(actionRenamedOldName, py "a")], false⟩, ⟨.failed, true⟩]

end Elyra.Monitor
