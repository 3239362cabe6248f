import Elyra.Response.Accounts

set_option autoImplicit false
set_option linter.unusedSectionVars false

/-! # Threads that call the engine

`bind_state`, `release_binding`, `execute_recommendation` and `close`, each in any number of threads.
The accounts of `Accounts` make a statement about every state of every run, and `close` empties the
map, provided nothing is bound while it runs: what is still open when it returns is about to be closed
by a call that has not returned. -/

namespace Elyra.Response.Steps

open Elyra.Python Elyra.Posix Elyra.Posix.Program Elyra.Correlation

variable {F : Type} [FloatNum F]

/-! ## Threads -/

/-- A public call of the engine. -/
inductive Operation (F : Type) where
  | bindState (state : Mapping F)
  | releaseBinding (correlationId : PyStr)
  | executeRecommendation (state : Mapping F)
  | close

/-- The program of a call; what it returns does not matter. -/
def Operation.code (h : Platform) (policy : ResponsePolicy) : Operation F → Prog F Unit
  | .bindState state => do
      let _ ← Steps.bindState state
      return ()
  | .releaseBinding correlationId => Steps.releaseBinding correlationId
  | .executeRecommendation state => do
      let _ ← Steps.executeRecommendation h policy state
      return ()
  | .close => Steps.close

abbrev Thread (F : Type) := Holder (Operation F) (interface F) Exc Unit Nat

abbrev Engine (F : Type) := Posix.Pool World (Thread F)

/-- A call begins. -/
def Begins (h : Platform) (policy : ResponsePolicy) (t : Thread F) : Prop :=
  t.code = t.tag.code h policy ∧ t.held = 0

/-- A step: of a call, in which no `os.close` fails in the lock region of `bind_state`, or of another
    component. -/
abbrev Step : World → Thread F → World → Thread F → Prop := Holder.Act (handling F) orderly Outside

abbrev Runs (h : Platform) (policy : ResponsePolicy) : Engine F → Engine F → Prop :=
  Posix.Pool.Runs (Begins h policy) Step

/-- A step that is not the lock region of a `bind_state`. -/
abbrev StepUnbound : World → Thread F → World → Thread F → Prop :=
  Holder.Act (handling F) (fun w c r w' => orderly w c r w' ∧ ∀ binding, c ≠ .bind binding) Outside

/-- A run in which nothing is bound. -/
abbrev RunsUnbound (h : Platform) (policy : ResponsePolicy) : Engine F → Engine F → Prop :=
  Posix.Pool.Runs (Begins h policy) StepUnbound

/-- The engine before its first call, beside other components. -/
def initial (others : List Nat) : Engine F := ⟨{ others := others }, []⟩

theorem code_neat (h : Platform) (policy : ResponsePolicy) (op : Operation F) :
    Neat (op.code h policy) := by
  cases op with
  | bindState state => exact Neat.bind (bindState_neat state) fun _ => rfl
  | releaseBinding correlationId => exact releaseBinding_neat correlationId
  | executeRecommendation state =>
      exact Neat.bind (executeRecommendation_neat h policy state) fun _ => rfl
  | close => exact close_neat

/-! ## Accounts -/

/-- The descriptor is open, and no running call has it. -/
def OutsideCalls (p : Engine F) (fd : Nat) : Prop :=
  fd ∈ p.shared.live ∧ ∀ t ∈ p.threads, ¬ t.Finished → fd ∉ t.held

/-- The descriptors of the engine are accounted for. -/
structure Accounted (p : Engine F) : Prop where
  /-- Those outside of a call are exactly those of the bindings. -/
  owned : ∀ fd, OutsideCalls p fd ↔
    ∃ id binding, p.shared.tables.bindings.get? id = some binding ∧ binding.fileFd = some fd
  /-- No two bindings have the same one. -/
  distinct : (fdsOf p.shared.tables.bindings).Nodup
  /-- Each opening is closed at most once, -/
  once : p.shared.closed.Nodup
  /-- and it is closed exactly if its descriptor is not open any more. -/
  closed : ∀ k, k ∈ p.shared.closed ↔
    k < p.shared.opened ∧ ∀ fd, p.shared.descriptors.get? fd ≠ some k
  /-- Nothing is used or closed that is not open, or somebody else's. -/
  strays : p.shared.strays = []
  bounded : p.shared.tables.bindings.size ≤ 1024

abbrev Ordered (p : Engine F) : Prop :=
  InOrder (handling F) Orderly World.Sound World.live World.kept (fun _ _ held => held = 0) p

theorem initial_ordered (others : List Nat) : Ordered (initial others : Engine F) :=
  ⟨⟨Nat.zero_le _, rfl, List.Perm.refl _, fun _ _ => rfl⟩, rfl, fun _ h => nomatch h⟩

theorem ordered_runs {h : Platform} {policy : ResponsePolicy} {p p' : Engine F}
    (hruns : Runs h policy p p') (hp : Ordered p) : Ordered p' := by
  have hbegins : ∀ t : Thread F, Begins h policy t →
      t.held = 0 ∧ Careful t.code 0 fun _ held => held = 0 := by
    rintro t ⟨hcode, hheld⟩
    rw [hcode]
    exact ⟨hheld, code_neat h policy t.tag⟩
  exact accounts.runs orderly_valid hbegins hruns hp

theorem mem_fdsOf {bindings : Dict PyStr BoundTarget} {fd : Nat} :
    fd ∈ fdsOf bindings ↔
      ∃ id binding, bindings.get? id = some binding ∧ binding.fileFd = some fd := by
  rw [fdsOf, Multiset.mem_coe, Dict.values, List.mem_filterMap]
  constructor
  · rintro ⟨binding, hmem, hfd⟩
    obtain ⟨⟨id, b⟩, hitem, rfl⟩ := List.mem_map.1 hmem
    exact ⟨id, b, Dict.mem_items.1 hitem, hfd⟩
  · rintro ⟨id, binding, hget, hfd⟩
    exact ⟨binding, List.mem_map.2 ⟨(id, binding), Dict.mem_items.2 hget, rfl⟩, hfd⟩

theorem live_nodup (w : World) : w.live.Nodup := w.descriptors.nodup

theorem Ordered.mem_live {p : Engine F} (hp : Ordered p) {fd : Nat} :
    fd ∈ p.shared.live ↔ fd ∈ p.shared.kept ∨ ∃ t ∈ p.threads, fd ∈ t.held := by
  rw [hp.live, Multiset.mem_add]
  have hsum : ∀ ts : List (Thread F), fd ∈ (ts.map Holder.held).sum ↔ ∃ t ∈ ts, fd ∈ t.held := by
    intro ts
    induction ts with
    | nil => simp
    | cons t ts ih => simp [ih]
  rw [hsum]

theorem Ordered.accounted {p : Engine F} (hp : Ordered p) : Accounted p := by
  have hfinished : ∀ t ∈ p.threads, t.Finished → t.held = 0 := fun t ht ⟨r, hr⟩ =>
    InOrder.finished hp ht hr
  refine ⟨fun fd => ?_, ?_, ?_, fun k => ?_, hp.shared.strays, hp.shared.bindings⟩
  · rw [← mem_fdsOf]
    constructor
    · rintro ⟨hlive, hnone⟩
      rcases hp.mem_live.1 hlive with hkept | ⟨t, ht, hheld⟩
      · exact hkept
      · by_cases hrunning : t.Finished
        · rw [hfinished t ht hrunning] at hheld
          exact absurd hheld (Multiset.notMem_zero fd)
        · exact absurd hheld (hnone t ht hrunning)
    · intro hkept
      refine ⟨hp.mem_live.2 (.inl hkept), fun t ht _ hheld => ?_⟩
      -- the descriptor would be live twice
      have hle := InOrder.held_live hp ht
      have hdisjoint := (Multiset.nodup_add.1 (Multiset.nodup_of_le hle (live_nodup _))).2.2
      exact Multiset.disjoint_left.1 hdisjoint hkept hheld
  · have hle : fdsOf p.shared.tables.bindings ≤ p.shared.live := by
      rw [hp.live]
      exact Multiset.le_add_right _ _
    exact Multiset.nodup_of_le hle (live_nodup _)
  · have hnodup := hp.shared.openings.nodup_iff.2 List.nodup_range
    exact (List.nodup_append.1 hnodup).1
  · have hnodup := hp.shared.openings.nodup_iff.2 List.nodup_range
    have hmem : k ∈ p.shared.closed ++ p.shared.descriptors.values ↔ k < p.shared.opened := by
      rw [hp.shared.openings.mem_iff, List.mem_range]
    have hvalues : k ∈ p.shared.descriptors.values ↔ ∃ fd, p.shared.descriptors.get? fd = some k := by
      rw [Dict.values, List.mem_map]
      constructor
      · rintro ⟨⟨fd, k'⟩, hitem, rfl⟩
        exact ⟨fd, Dict.mem_items.1 hitem⟩
      · rintro ⟨fd, hget⟩
        exact ⟨(fd, k), Dict.mem_items.2 hget, rfl⟩
    rw [List.mem_append, hvalues] at hmem
    constructor
    · intro hk
      refine ⟨hmem.1 (.inl hk), fun fd hfd => ?_⟩
      exact (List.nodup_append.1 hnodup).2.2 k hk k (hvalues.2 ⟨fd, hfd⟩) rfl
    · rintro ⟨hlt, hnone⟩
      rcases hmem.2 hlt with hk | ⟨fd, hfd⟩
      · exact hk
      · exact absurd hfd (hnone fd)

/-! ## Closing the engine -/

/-- The keys that may be bound after a call, where they were among these before. -/
def remaining (c : (interface F).Call) (r : Except Exc c.Answer) (ids : List PyStr) : List PyStr :=
  match c, r with
  | .popBinding id, _ => ids.filter (· ≠ id)
  | .bindingKeys, .ok ids => ids
  | _, _ => ids

/-- The program pops all of these before it returns. -/
def Clears : Prog F Unit → List PyStr → Prop
  | .done _, ids => ids = []
  | .raise _, _ => True
  | .call c next, ids => ∀ r, Clears (next r) (remaining c r ids)
  | .undo p, ids => Clears p ids

theorem releaseAll_clears {ids ids' : List PyStr} (h : ids' ⊆ ids) :
    Clears (releaseAll ids : Prog F Unit) ids' := by
  induction ids generalizing ids' with
  | nil => exact List.subset_nil.1 h
  | cons id ids ih =>
      have hrest : ids'.filter (· ≠ id) ⊆ ids := by
        intro id' hid
        obtain ⟨hmem, hne⟩ := List.mem_filter.1 hid
        exact (List.mem_cons.1 (h hmem)).resolve_left (by simpa using hne)
      intro r
      cases r with
      | error e => trivial
      | ok binding =>
          show Clears (closeFd (binding.bind BoundTarget.fileFd) >>= fun _ => releaseAll ids) _
          cases binding.bind BoundTarget.fileFd with
          | none => exact ih hrest
          | some fd =>
              intro r
              cases r with
              | error e => trivial
              | ok u => exact ih hrest

theorem close_clears (ids : List PyStr) : Clears (close : Prog F Unit) ids := by
  intro r
  cases r with
  | error e => trivial
  | ok ids => exact releaseAll_clears (List.Subset.refl ids)

@[simp] theorem touching_tables (w : World) (fd : Nat) : (w.touching fd).tables = w.tables := by
  unfold World.touching
  split <;> rfl

/-- Only the lock region of `bind_state` binds anything. -/
theorem answers_shrink {w w' : World} {c : (interface F).Call} {r : Except Exc c.Answer}
    (hanswers : answers w c r w') (hbind : ∀ binding, c ≠ .bind binding) :
    w'.tables.bindings = w.tables.bindings ∨
      ∃ id, c = .popBinding id ∧ w'.tables.bindings = w.tables.bindings.pop id := by
  have hsame : w' = w → w'.tables.bindings = w.tables.bindings := fun h => h ▸ rfl
  cases c with
  | bind binding => exact absurd rfl (hbind binding)
  | popBinding id =>
      obtain ⟨-, rfl⟩ := hanswers
      exact .inr ⟨id, rfl, rfl⟩
  | openFile path =>
      cases r with
      | ok fd =>
          obtain ⟨-, rfl⟩ := hanswers
          exact .inl rfl
      | error e => exact .inl (hsame hanswers)
  | pidfdOpen pid =>
      cases r with
      | ok fd =>
          obtain ⟨-, rfl⟩ := hanswers
          exact .inl rfl
      | error e => exact .inl (hsame hanswers)
  | fstat fd =>
      obtain rfl : w' = w.touching fd := hanswers
      exact .inl (by rw [touching_tables])
  | readAll fd =>
      obtain rfl : w' = w.touching fd := hanswers
      exact .inl (by rw [touching_tables])
  | lseek fd =>
      obtain rfl : w' = w.touching fd := hanswers
      exact .inl (by rw [touching_tables])
  | sendSignal fd s =>
      obtain rfl : w' = w.touching fd := hanswers
      exact .inl (by rw [touching_tables])
  | waitPidfd fd s =>
      obtain rfl : w' = w.touching fd := hanswers
      exact .inl (by rw [touching_tables])
  | close fd =>
      obtain rfl : w' = w.closing fd := hanswers
      exact .inl (by rw [closing_tables])
  | commit state a previous status =>
      obtain ⟨-, rfl⟩ := hanswers
      exact .inl rfl
  | monotonic => exact .inl (hsame hanswers.2)
  | enter state => exact .inl (hsame hanswers.2)
  | getBinding id => exact .inl (hsame hanswers.2)
  | bindingKeys => exact .inl (hsame hanswers.2)
  | _ => exact .inl (hsame hanswers)

/-- Nothing is bound but these. -/
def Covers (w : World) (ids : List PyStr) : Prop :=
  ∀ id binding, w.tables.bindings.get? id = some binding → id ∈ ids

theorem covers_keys (w : World) : Covers w (keys w.tables.bindings.items) := by
  intro id binding hget
  by_contra hnot
  exact absurd (hget.symm.trans (lookup_eq_none_iff.2 hnot)) (by simp)

/-- A step of another thread. -/
theorem Covers.shrink {w w' : World} {c : (interface F).Call} {r : Except Exc c.Answer}
    {ids : List PyStr} (h : Covers w ids) (hanswers : answers w c r w')
    (hbind : ∀ binding, c ≠ .bind binding) : Covers w' ids := by
  intro id binding hget
  rcases answers_shrink hanswers hbind with hsame | ⟨id', -, hpop⟩
  · rw [hsame] at hget
    exact h id binding hget
  · rw [hpop] at hget
    exact h id binding (Dict.get?_of_pop hget).2

/-- A step of the thread itself. -/
theorem Covers.step {w w' : World} {c : (interface F).Call} {r : Except Exc c.Answer}
    {ids : List PyStr} (h : Covers w ids) (hanswers : answers w c r w')
    (hbind : ∀ binding, c ≠ .bind binding) : Covers w' (remaining c r ids) := by
  have hshrunk := h.shrink hanswers hbind
  cases c with
  | popBinding id =>
      obtain ⟨-, rfl⟩ := hanswers
      intro id' binding hget
      obtain ⟨hne, hold⟩ := Dict.get?_of_pop hget
      exact List.mem_filter.2 ⟨h id' binding hold, by simpa using hne⟩
  | bindingKeys =>
      obtain ⟨rfl, rfl⟩ := hanswers
      exact covers_keys w'
  | _ => exact hshrunk

/-- The thread is a `close` that still pops everything that is bound. -/
def Closing (w : World) (t : Thread F) : Prop := ∃ ids, Covers w ids ∧ Clears t.code ids

theorem closing_runs {h : Platform} {policy : ResponsePolicy} {p q : Engine F}
    (hruns : RunsUnbound h policy p q) {i : Nat} {t : Thread F} (hi : p.threads.length ≤ i)
    (ht : q.threads[i]? = some t) (hclose : t.tag = .close) : Closing q.shared t := by
  have hall := Posix.Pool.Runs.forall_at (I := fun _ => True)
    (P := fun i w (t : Thread F) => p.threads.length ≤ i → t.tag = .close → Closing w t)
    (fun i w t _ _ hbegins _ htag => by
      obtain ⟨hcode, -⟩ := hbegins
      refine ⟨keys w.tables.bindings.items, covers_keys w, ?_⟩
      rw [hcode, htag]
      exact close_clears _)
    (fun i w t w' t' hact _ hP => ⟨trivial, fun hi htag => by
      cases hact with
      | call hstep =>
          obtain ⟨ids, hcovers, hclears⟩ := hP hi htag
          exact ⟨_, hcovers.step hstep.1.1 hstep.2, hclears _⟩
      | undo => exact hP hi htag
      | outside hout =>
          obtain ⟨ids, hcovers, hclears⟩ := hP hi htag
          refine ⟨ids, ?_, hclears⟩
          cases hout <;> exact hcovers⟩)
    (fun i j w t w' t' u hact _ _ hP hj htag => by
      obtain ⟨ids, hcovers, hclears⟩ := hP hj htag
      refine ⟨ids, ?_, hclears⟩
      cases hact with
      | call hstep => exact hcovers.shrink hstep.1.1 hstep.2
      | undo => exact hcovers
      | outside hout => cases hout <;> exact hcovers)
    hruns trivial le_rfl
    (fun i t ht hi => absurd (List.getElem?_eq_some_iff.1 ht).1 (by omega))
  exact hall.2.2 i t ht hi hclose

/-- **When `close` returns, nothing is bound.** -/
theorem closed_empty {h : Platform} {policy : ResponsePolicy} {p q : Engine F}
    (hruns : RunsUnbound h policy p q) {i : Nat} {t : Thread F} (hi : p.threads.length ≤ i)
    (ht : q.threads[i]? = some t) (hclose : t.tag = .close) (hdone : t.code = .done ()) :
    q.shared.tables.bindings.items = [] := by
  obtain ⟨ids, hcovers, hclears⟩ := closing_runs hruns hi ht hclose
  rw [hdone] at hclears
  obtain rfl : ids = [] := hclears
  rw [List.eq_nil_iff_forall_not_mem]
  rintro ⟨id, binding⟩ hmem
  exact absurd (hcovers id binding (Dict.mem_items.1 hmem)) List.not_mem_nil

/-- What is open when `close` has returned is in the hands of a call that has not. -/
theorem closed_remainder {p : Engine F} (hp : Ordered p) (hempty : p.shared.tables.bindings.items = [])
    {fd : Nat} (hfd : fd ∈ p.shared.live) : ∃ t ∈ p.threads, ¬ t.Finished ∧ fd ∈ t.held := by
  rcases hp.mem_live.1 hfd with hkept | ⟨t, ht, hheld⟩
  · obtain ⟨id, binding, hget, -⟩ := mem_fdsOf.1 hkept
    have hmem := Dict.mem_items.2 hget
    rw [hempty] at hmem
    exact absurd hmem List.not_mem_nil
  · refine ⟨t, ht, fun ⟨r, hr⟩ => ?_, hheld⟩
    have hnone : t.held = 0 := InOrder.finished hp ht hr
    rw [hnone] at hheld
    exact absurd hheld (Multiset.notMem_zero fd)

theorem RunsUnbound.runs {h : Platform} {policy : ResponsePolicy} {p q : Engine F}
    (hruns : RunsUnbound h policy p q) : Runs h policy p q := by
  refine Relation.ReflTransGen.mono ?_ _ _ hruns
  intro p q hstep
  cases hstep with
  | start ht => exact .start ht
  | act hact =>
      refine .act ?_
      cases hact with
      | call hcall => exact .call hcall.1
      | undo => exact .undo
      | outside hout => exact .outside hout

/-- **In every state of every run the engine's descriptors are accounted for, and a `close` during
    which nothing is bound leaves no binding, and no descriptor but those of calls that are still
    running.** -/
theorem response_descriptors_accounted (h : Platform) (policy : ResponsePolicy) (others : List Nat)
    {p : Engine F} (hp : Runs h policy (initial others) p) :
    Accounted p ∧
      ∀ q i t, RunsUnbound h policy p q → p.threads.length ≤ i → q.threads[i]? = some t →
        t.tag = .close → t.code = .done () →
          q.shared.tables.bindings.items = [] ∧
            ∀ fd ∈ q.shared.live, ∃ u ∈ q.threads, ¬ u.Finished ∧ fd ∈ u.held := by
  have hordered := ordered_runs hp (initial_ordered others)
  refine ⟨hordered.accounted, fun q i t hq hi ht htag hdone => ?_⟩
  have hempty := closed_empty hq hi ht htag hdone
  exact ⟨hempty, fun fd hfd => closed_remainder (ordered_runs hq.runs hordered) hempty hfd⟩

/-! ## A release while the engine is closed -/

/-- A host with one file; any other call of this run stands still. -/
def reply (w : World) (c : Call F) : Option (Except Exc c.Answer × World) :=
  let file : Stat := ⟨.regular, 1, 2, 0, 0, 0, 0, 0, 0, 1⟩
  match c with
  | .text _ => some (.ok (), w)
  | .lstat _ => some (.ok file, w)
  | .openFile _ => if w.descriptors.get? 5 = none ∧ 5 ∉ w.others then some (.ok 5, w.opening 5) else none
  | .fstat fd => some (.ok file, w.touching fd)
  | .readAll fd => some (.ok [], w.touching fd)
  | .lseek fd => some (.ok (), w.touching fd)
  | .resolve path => some (.ok path, w)
  | .monotonic => some (.ok 0, w)
  | .bind binding =>
      match Region.swapBinding (fun _ => none) binding { bindings := w.tables.bindings } with
      | .ok _ region => some (.ok (), (w.closingAll region.closed).setBindings region.bindings)
      | .error _ _ => none
  | .popBinding id =>
      some (.ok (w.tables.bindings.get? id), w.setBindings (w.tables.bindings.pop id))
  | .bindingKeys => some (.ok (keys w.tables.bindings.items), w)
  | _ => none

theorem reply_orderly {w w' : World} {c : Call F} {r : Except Exc c.Answer}
    (h : reply w c = some (r, w')) : orderly w c r w' := by
  cases c with
  | openFile path =>
      simp only [reply] at h
      split at h
      · next hfree =>
        cases h
        exact ⟨⟨hfree, rfl⟩, nofun⟩
      · cases h
  | bind binding =>
      simp only [reply] at h
      split at h
      · next hrun =>
        cases h
        exact ⟨⟨_, _, .inl ⟨hrun, rfl⟩, rfl⟩, fun _ _ => ⟨(), rfl⟩⟩
      · cases h
  | text value => cases h; exact ⟨rfl, nofun⟩
  | lstat path => cases h; exact ⟨rfl, nofun⟩
  | fstat fd => cases h; exact ⟨rfl, nofun⟩
  | readAll fd => cases h; exact ⟨rfl, nofun⟩
  | lseek fd => cases h; exact ⟨rfl, nofun⟩
  | resolve path => cases h; exact ⟨rfl, nofun⟩
  | monotonic => cases h; exact ⟨⟨⟨0, rfl⟩, rfl⟩, nofun⟩
  | popBinding id => cases h; exact ⟨⟨rfl, rfl⟩, nofun⟩
  | bindingKeys => cases h; exact ⟨⟨rfl, rfl⟩, nofun⟩
  | _ => cases h

/-- The calls of the thread, at most so many, one after the other. -/
def proceed : Nat → World → Thread F → World × Thread F
  | 0, w, t => (w, t)
  | n + 1, w, t =>
      match t.code with
      | .call c next =>
          match reply w c with
          | none => (w, t)
          | some (r, w') => proceed n w' ⟨t.tag, next r, (handling F).after c r t.held⟩
      | _ => (w, t)

theorem proceed_runs (h : Platform) (policy : ResponsePolicy) (n : Nat) (w : World) (t : Thread F)
    (xs ys : List (Thread F)) :
    Runs h policy ⟨w, xs ++ t :: ys⟩ ⟨(proceed n w t).1, xs ++ (proceed n w t).2 :: ys⟩ := by
  induction n generalizing w t with
  | zero => exact .refl
  | succ n ih =>
      obtain ⟨tag, code, held⟩ := t
      cases code with
      | call c next =>
          cases hreply : reply w c with
          | none =>
              simp only [proceed, hreply]
              exact .refl
          | some rw' =>
              obtain ⟨r, w'⟩ := rw'
              simp only [proceed, hreply]
              exact .head (.act (.call (reply_orderly hreply))) (ih w' _)
      | _ => exact .refl

def fileState : Mapping SampleFloat :=
  [(py "correlation_id", .str (py "c1")), (py "path", .str (py "/tmp/a"))]

def samplePlatform : Platform := ⟨900, true, true⟩

def samplePolicy : ResponsePolicy where
  automaticRuntimeActions := true
  escalateToSigkill := true
  requirePidfd := true
  protectedPids := [0, 1]
  protectedPathPrefixes := [py "/opt/elyra"]

def begun (op : Operation SampleFloat) : Thread SampleFloat :=
  ⟨op, op.code samplePlatform samplePolicy, 0⟩

/-- The file is bound. -/
@[irreducible]
def boundFrom : World × Thread SampleFloat := proceed 10 {} (begun (.bindState fileState))

def boundEngine : Engine SampleFloat := ⟨boundFrom.1, [boundFrom.2]⟩

theorem boundEngine_runs : Runs samplePlatform samplePolicy (initial []) boundEngine := by
  unfold boundEngine boundFrom
  exact .head (.start ⟨rfl, rfl⟩)
    (proceed_runs samplePlatform samplePolicy 10 {} (begun (.bindState fileState)) [] [])

/-- A release that has taken the binding out of the map and has come no further. -/
def releasing (w : World) (id : PyStr) : Thread F :=
  ⟨.releaseBinding id, closeFd ((w.tables.bindings.get? id).bind BoundTarget.fileFd),
    (handling F).after (Call.popBinding id) (.ok (w.tables.bindings.get? id)) 0⟩

theorem stepUnbound_of_call {w w' : World} {op : Operation F} {p : Prog F Unit} {c : Call F}
    {next : Except Exc c.Answer → Prog F Unit} {r : Except Exc c.Answer} (hp : p = .call c next)
    (hanswer : orderly w c r w') (hc : ∀ binding, c ≠ .bind binding) :
    StepUnbound w ⟨op, p, 0⟩ w' ⟨op, next r, (handling F).after c r 0⟩ := by
  rw [hp]
  exact .call ⟨hanswer, hc⟩

theorem release_pops (h : Platform) (policy : ResponsePolicy) (w : World) (ts : List (Thread F))
    (id : PyStr) :
    RunsUnbound h policy ⟨w, ts⟩
      ⟨w.setBindings (w.tables.bindings.pop id), ts ++ [releasing w id]⟩ := by
  have hpop : StepUnbound w (⟨.releaseBinding id, Steps.releaseBinding id, 0⟩ : Thread F)
      (w.setBindings (w.tables.bindings.pop id)) (releasing w id) :=
    stepUnbound_of_call (F := F) (c := Call.popBinding id) (r := .ok (w.tables.bindings.get? id)) rfl
      ⟨⟨rfl, rfl⟩, nofun⟩ nofun
  exact .tail (.single (.start ⟨rfl, rfl⟩)) (.act hpop)

theorem close_ends (h : Platform) (policy : ResponsePolicy) {w : World} (ts : List (Thread F))
    (hempty : keys w.tables.bindings.items = []) :
    RunsUnbound h policy ⟨w, ts⟩ ⟨w, ts ++ [⟨.close, .done (), 0⟩]⟩ := by
  have hkeys : StepUnbound w (⟨.close, Steps.close, 0⟩ : Thread F) w ⟨.close, .done (), 0⟩ :=
    stepUnbound_of_call (F := F) (c := Call.bindingKeys) (r := .ok []) rfl
      ⟨⟨congrArg Except.ok hempty.symm, rfl⟩, nofun⟩ nofun
  exact .tail (.single (.start ⟨rfl, rfl⟩)) (.act hkeys)

/-- The binding has been taken out of the map by a release that has come no further, and `close` has
    found none. -/
def closedEngine : Engine SampleFloat :=
  ⟨boundFrom.1.setBindings (boundFrom.1.tables.bindings.pop (py "c1")),
    [boundFrom.2, releasing boundFrom.1 (py "c1"), ⟨.close, .done (), 0⟩]⟩

theorem closedEngine_empty : keys closedEngine.shared.tables.bindings.items = [] := by
  have hkeys : (keys closedEngine.shared.tables.bindings.items).isEmpty := by decide +kernel
  exact List.isEmpty_iff.1 hkeys

theorem closedEngine_runs : RunsUnbound samplePlatform samplePolicy boundEngine closedEngine :=
  (release_pops samplePlatform samplePolicy boundFrom.1 [boundFrom.2] (py "c1")).trans
    (close_ends samplePlatform samplePolicy [boundFrom.2, releasing boundFrom.1 (py "c1")]
      closedEngine_empty)

/-- What is left of the release is its `os.close`. -/
theorem closedEngine_live : (5 : Nat) ∈ closedEngine.shared.live := by
  have hlive : (keys closedEngine.shared.descriptors.items).contains 5 := by decide +kernel
  exact Multiset.mem_coe.2 (List.contains_iff_mem.1 hlive)

/-- `close` has returned and nothing was bound meanwhile, and yet the file of the former binding is
    open: the release that took the binding away has not closed it yet. -/
theorem release_outlives_close :
    Runs samplePlatform samplePolicy (initial []) boundEngine ∧
      RunsUnbound samplePlatform samplePolicy boundEngine closedEngine ∧
        closedEngine.threads[2]? = some ⟨.close, .done (), 0⟩ ∧ boundEngine.threads.length ≤ 2 ∧
          closedEngine.shared.live ≠ 0 := by
  refine ⟨boundEngine_runs, closedEngine_runs, rfl, Nat.le_succ 1, fun hnone => ?_⟩
  have hlive := closedEngine_live
  rw [hnone] at hlive
  exact Multiset.notMem_zero 5 hlive

/-- The run ends with the accounts in order, and an empty map. -/
theorem closedEngine_accounted :
    Accounted boundEngine ∧ closedEngine.shared.tables.bindings.items = [] := by
  have haccounts := response_descriptors_accounted samplePlatform samplePolicy [] boundEngine_runs
  exact ⟨haccounts.1, (haccounts.2 closedEngine 2 ⟨.close, .done (), 0⟩ closedEngine_runs
    (Nat.le_succ 1) rfl rfl rfl).1⟩

end Elyra.Response.Steps
