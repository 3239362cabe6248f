import Elyra.Response.Handles

set_option autoImplicit false
set_option linter.unusedSectionVars false

/-! # The descriptors are accounted for

Whatever the interleaving, the engine's open descriptors are those of the bindings and those its
running calls hold, and each is closed once and not used afterwards. It takes `bind_state`'s lock
region to end normally: where an `os.close` in it fails, the descriptor just opened has got no
binding, and nothing closes it. -/

namespace Elyra.Response.Steps

open Elyra.Python Elyra.Posix Elyra.Posix.Program Elyra.Correlation

variable {F : Type}

/-! ## The descriptors of the bindings -/

/-- The descriptors of the bindings. -/
def fdsOf (bindings : Dict PyStr BoundTarget) : Multiset Nat :=
  (bindings.values.filterMap BoundTarget.fileFd : List Nat)

theorem coe_toList (fd : Option Nat) : ((fd.toList : List Nat) : Multiset Nat) = single fd := by
  cases fd <;> rfl

theorem filterMap_cons_coe (b : BoundTarget) (bs : List BoundTarget) :
    (((b :: bs).filterMap BoundTarget.fileFd : List Nat) : Multiset Nat) =
      single b.fileFd + (bs.filterMap BoundTarget.fileFd : List Nat) := by
  cases hfd : b.fileFd with
  | none => simp [hfd, single]
  | some fd => simp [hfd, single]

theorem fdsOf_pop (bindings : Dict PyStr BoundTarget) (id : PyStr) :
    fdsOf bindings =
      fdsOf (bindings.pop id) + single ((bindings.get? id).bind BoundTarget.fileFd) := by
  cases hget : bindings.get? id with
  | none =>
      rw [fdsOf, fdsOf, Dict.values, Dict.values, Dict.pop_of_none hget]
      simp [single]
  | some b =>
      have hperm := ((Dict.pop_perm hget).map Prod.snd).filterMap BoundTarget.fileFd
      rw [fdsOf, Dict.values, Multiset.coe_eq_coe.2 hperm, List.map_cons, filterMap_cons_coe,
        add_comm]
      rfl

theorem fdsOf_set {bindings : Dict PyStr BoundTarget} {id : PyStr} (b : BoundTarget)
    (h : bindings.get? id = none) :
    fdsOf (bindings.set id b) = fdsOf bindings + single b.fileFd := by
  have hitems : (bindings.set id b).items = bindings.items ++ [(id, b)] :=
    assign_of_not_mem (lookup_eq_none_iff.1 h)
  rw [fdsOf, fdsOf, Dict.values, Dict.values, hitems, List.map_append, List.filterMap_append,
    ← Multiset.coe_add]
  congr 1
  rw [List.map_singleton, filterMap_cons_coe]
  simp

/-! ## The lock region of `bind_state` -/

namespace Region

/-- The descriptors of the bindings, and those that were theirs. -/
def total (r : Region) : Multiset Nat := fdsOf r.bindings + (r.closed : Multiset Nat)

theorem drop_final (closing : Nat → Option Exc) (key : PyStr) (r : Region) :
    Py.final (drop closing key) r =
      { bindings := r.bindings.pop key
        closed := r.closed ++ ((r.bindings.get? key).bind BoundTarget.fileFd).toList } := by
  show Py.final (closeFd closing _) { r with bindings := r.bindings.pop key } = _
  cases (r.bindings.get? key).bind BoundTarget.fileFd with
  | none => simp [closeFd, Py.final, pure, EStateM.pure]
  | some fd =>
      cases hclosing : closing fd with
      | none => simp only [closeFd, hclosing]; rfl
      | some exc => simp only [closeFd, hclosing]; rfl

theorem drop_total (closing : Nat → Option Exc) (key : PyStr) (r : Region) :
    (Py.final (drop closing key) r).total = r.total := by
  rw [drop_final, total, total, ← Multiset.coe_add, coe_toList, fdsOf_pop r.bindings key]
  dsimp only
  abel

theorem size_pop_le (bindings : Dict PyStr BoundTarget) (key : PyStr) :
    (bindings.pop key).size ≤ bindings.size := by
  cases hget : bindings.get? key with
  | none => exact le_of_eq (congrArg List.length (Dict.pop_of_none hget))
  | some b =>
      have h := Dict.size_pop hget
      omega

/-- What dropping bindings keeps. -/
structure Dropped (T : Multiset Nat) (n : Nat) (id : PyStr) (r : Region) : Prop where
  total : r.total = T
  size : r.bindings.size ≤ n
  absent : r.bindings.get? id = none

theorem drop_keeps (closing : Nat → Option Exc) (key : PyStr) (T : Multiset Nat) (n : Nat)
    (id : PyStr) : Py.Keeps (Dropped T n id) (drop closing key) := by
  intro r h
  refine ⟨(drop_total closing key r).trans h.total, ?_, ?_⟩
  · rw [drop_final]
    exact (size_pop_le _ _).trans h.size
  · rw [drop_final]
    by_contra hsome
    obtain ⟨b, hb⟩ := Option.ne_none_iff_exists'.1 hsome
    have habsent := h.absent
    rw [(Dict.get?_of_pop hb).2] at habsent
    cases habsent

theorem evict_keeps (closing : Nat → Option Exc) (fuel : Nat) (T : Multiset Nat) (n : Nat)
    (id : PyStr) : Py.Keeps (Dropped T n id) (evict closing fuel) := by
  induction fuel with
  | zero => exact Py.Keeps.of_pure ()
  | succ fuel ih =>
      refine Py.Keeps.bind Py.Keeps.of_get fun r => ?_
      split
      · exact Py.Keeps.of_pure ()
      · split
        · exact Py.Keeps.of_pure ()
        · exact Py.Keeps.bind (drop_keeps closing _ T n id) fun _ => ih

section Fold

variable {α : Type} {f : Option α → α → Option α}

/-- A fold that takes the next item or keeps what it has ends with an item, or as it began. -/
theorem foldl_mem_or (hf : ∀ best a, f best a = some a ∨ f best a = best) {items : List α}
    {best : Option α} {a : α} (h : items.foldl f best = some a) : a ∈ items ∨ best = some a := by
  induction items generalizing best with
  | nil => exact .inr h
  | cons item items ih =>
      rcases ih h with hmem | hbest
      · exact .inl (List.mem_cons_of_mem _ hmem)
      · rcases hf best item with hitem | hkept
        · obtain rfl := Option.some.inj (hitem.symm.trans hbest)
          exact .inl List.mem_cons_self
        · exact .inr (hkept.symm.trans hbest)

theorem foldl_some (hf : ∀ best a, f best a = some a ∨ f best a = best) (items : List α) (b : α) :
    ∃ a, items.foldl f (some b) = some a := by
  induction items generalizing b with
  | nil => exact ⟨b, rfl⟩
  | cons item items ih =>
      rw [List.foldl_cons]
      rcases hf (some b) item with hitem | hkept
      · rw [hitem]
        exact ih item
      · rw [hkept]
        exact ih b

end Fold

/-- `oldestKey` is such a fold, and takes the first item. -/
theorem oldestKey_fold (bindings : Dict PyStr BoundTarget) :
    ∃ f : Option (PyStr × BoundTarget) → PyStr × BoundTarget → Option (PyStr × BoundTarget),
      (∀ best a, f best a = some a ∨ f best a = best) ∧ (∀ a, f none a = some a) ∧
        oldestKey bindings = (bindings.items.foldl f none).map Prod.fst := by
  refine ⟨_, ?_, fun _ => rfl, rfl⟩
  rintro (_ | b) a
  · exact .inl rfl
  · dsimp only
    split
    · exact .inl rfl
    · exact .inr rfl

theorem oldestKey_mem {bindings : Dict PyStr BoundTarget} {key : PyStr}
    (h : oldestKey bindings = some key) : ∃ b, bindings.get? key = some b := by
  obtain ⟨f, hf, -, hfold⟩ := oldestKey_fold bindings
  rw [hfold] at h
  obtain ⟨kv, hkv, rfl⟩ := Option.map_eq_some_iff.1 h
  rcases foldl_mem_or hf hkv with hmem | hnone
  · exact ⟨kv.2, Dict.mem_items.1 hmem⟩
  · cases hnone

theorem oldestKey_ne_none {bindings : Dict PyStr BoundTarget} (h : bindings.size ≠ 0) :
    oldestKey bindings ≠ none := by
  obtain ⟨f, hf, hfirst, hfold⟩ := oldestKey_fold bindings
  rw [hfold]
  cases hitems : bindings.items with
  | nil => exact absurd (by rw [Dict.size, hitems]; rfl) h
  | cons item items =>
      rw [List.foldl_cons, hfirst item]
      obtain ⟨a, ha⟩ := foldl_some hf items item
      rw [ha]
      simp

/-- The loop ends with less than 1024 bindings. -/
theorem evict_small {closing : Nat → Option Exc} {fuel : Nat} {r r' : Region} {u : Unit}
    (h : evict closing fuel r = .ok u r') (hsize : r.bindings.size ≤ fuel) :
    r'.bindings.size < 1024 := by
  induction fuel generalizing r with
  | zero =>
      cases h
      omega
  | succ fuel ih =>
      rw [evict, Py.bind_of_ok (run_get r)] at h
      split at h
      · next hsmall =>
        cases h
        exact hsmall
      · next hlarge =>
        cases hkey : oldestKey r.bindings with
        | none => exact absurd hkey (oldestKey_ne_none (by omega))
        | some key =>
            obtain ⟨b, hb⟩ := oldestKey_mem hkey
            rw [hkey] at h
            change (drop closing key >>= fun _ => evict closing fuel) r = .ok u r' at h
            cases hdrop : drop closing key r with
            | error e r₁ =>
                rw [Py.bind_of_error hdrop] at h
                cases h
            | ok u₁ r₁ =>
                rw [Py.bind_of_ok hdrop] at h
                refine ih h ?_
                have hfinal := drop_final closing key r
                rw [Py.final_of_ok hdrop] at hfinal
                have hpop := Dict.size_pop hb
                rw [hfinal]
                dsimp only
                omega

/-- The region ended normally: the descriptors that are bound now, or closed, are the old ones and
    that of the new binding. -/
theorem swapBinding_ok {closing : Nat → Option Exc} {binding : BoundTarget} {r r' : Region} {u : Unit}
    (h : swapBinding closing binding r = .ok u r') :
    r'.total = r.total + single binding.fileFd ∧ r'.bindings.size ≤ 1024 := by
  unfold swapBinding at h
  cases hdrop : drop closing binding.correlationId r with
  | error e r₁ =>
      rw [Py.bind_of_error hdrop] at h
      cases h
  | ok u₁ r₁ =>
      rw [Py.bind_of_ok hdrop] at h
      have hfinal := drop_final closing binding.correlationId r
      rw [Py.final_of_ok hdrop] at hfinal
      have hdropped : Dropped r.total r.bindings.size binding.correlationId r₁ := by
        refine ⟨?_, ?_, ?_⟩
        · rw [← drop_total closing binding.correlationId r, Py.final_of_ok hdrop]
        · rw [hfinal]
          exact size_pop_le _ _
        · rw [hfinal]
          exact Dict.get?_pop_self _ _
      change ((evict closing r₁.bindings.size) >>= fun _ => modify fun r =>
        { r with bindings := r.bindings.set binding.correlationId binding }) r₁ = .ok u r' at h
      cases hevict : evict closing r₁.bindings.size r₁ with
      | error e r₂ =>
          rw [Py.bind_of_error hevict] at h
          cases h
      | ok u₂ r₂ =>
          rw [Py.bind_of_ok hevict] at h
          have hkept := evict_keeps closing r₁.bindings.size _ _ _ r₁ hdropped
          rw [Py.final_of_ok hevict] at hkept
          have hsmall := evict_small hevict le_rfl
          cases h
          refine ⟨?_, ?_⟩
          · rw [total, fdsOf_set binding hkept.absent, ← hkept.total, total]
            abel
          · show (r₂.bindings.set binding.correlationId binding).size ≤ 1024
            rw [Dict.size_set_new binding hkept.absent]
            omega

end Region

/-! ## The descriptors of the engine -/

/-- The numbers of the open descriptors. -/
def World.live (w : World) : Multiset Nat := (keys w.descriptors.items : List Nat)

/-- Those the bindings have. -/
def World.kept (w : World) : Multiset Nat := fdsOf w.tables.bindings

/-- Every opening is closed once or still open, and nobody else's number was touched. -/
structure World.Sound (w : World) : Prop where
  bindings : w.tables.bindings.size ≤ 1024
  strays : w.strays = []
  openings : (w.closed ++ w.descriptors.values).Perm (List.range w.opened)
  others : ∀ fd ∈ w.others, w.descriptors.get? fd = none

theorem mem_live {w : World} {fd : Nat} : fd ∈ w.live ↔ ∃ k, w.descriptors.get? fd = some k := by
  rw [World.live, Multiset.mem_coe, ← not_iff_not, ← lookup_eq_none_iff, not_exists]
  exact Option.eq_none_iff_forall_ne_some

theorem live_opening {w : World} {fd : Nat} (h : w.Free fd) :
    (w.opening fd).live = w.live + {fd} := by
  have hitems : (w.descriptors.set fd w.opened).items = w.descriptors.items ++ [(fd, w.opened)] :=
    assign_of_not_mem (lookup_eq_none_iff.1 h.1)
  rw [World.live, World.live, World.opening]
  dsimp only
  rw [hitems, keys, List.map_append, ← Multiset.coe_add]
  rfl

theorem World.Sound.opening {w : World} {fd : Nat} (hw : w.Sound) (h : w.Free fd) :
    (w.opening fd).Sound := by
  have hitems : (w.descriptors.set fd w.opened).items = w.descriptors.items ++ [(fd, w.opened)] :=
    assign_of_not_mem (lookup_eq_none_iff.1 h.1)
  refine ⟨hw.bindings, hw.strays, ?_, fun n hn => ?_⟩
  · show (w.closed ++ (w.descriptors.set fd w.opened).values).Perm (List.range (w.opened + 1))
    rw [Dict.values, hitems, List.map_append, List.range_succ, ← List.append_assoc]
    exact hw.openings.append_right _
  · have hne : n ≠ fd := fun heq => h.2 (heq ▸ hn)
    exact (Dict.get?_set_ne _ hne _).trans (hw.others n hn)

theorem touching_live {w : World} {fd : Nat} (h : fd ∈ w.live) : w.touching fd = w := by
  obtain ⟨k, hk⟩ := mem_live.1 h
  rw [World.touching, hk]

theorem live_closing {w : World} {fd : Nat} (h : fd ∈ w.live) :
    w.live = fd ::ₘ (w.closing fd).live := by
  obtain ⟨k, hk⟩ := mem_live.1 h
  have hperm := (Dict.pop_perm hk).map Prod.fst
  rw [World.live, World.closing, hk]
  rw [show keys w.descriptors.items = w.descriptors.items.map Prod.fst from rfl,
    Multiset.coe_eq_coe.2 hperm, List.map_cons, ← Multiset.cons_coe]
  rfl

theorem World.Sound.closing {w : World} {fd : Nat} (hw : w.Sound) (h : fd ∈ w.live) :
    (w.closing fd).Sound := by
  obtain ⟨k, hk⟩ := mem_live.1 h
  rw [World.closing, hk]
  refine ⟨hw.bindings, hw.strays, ?_, fun n hn => ?_⟩
  · have hperm := (Dict.pop_perm hk).map Prod.snd
    have hvalues : (w.closed ++ [k] ++ (w.descriptors.pop fd).values).Perm
        (w.closed ++ w.descriptors.values) := by
      rw [List.append_assoc]
      exact (hperm.symm).append_left w.closed
    exact hvalues.trans hw.openings
  · by_cases heq : n = fd
    · subst heq
      exact Dict.get?_pop_self _ _
    · exact (Dict.get?_pop_ne _ heq).trans (hw.others n hn)

@[simp] theorem closing_tables (w : World) (fd : Nat) : (w.closing fd).tables = w.tables := by
  unfold World.closing
  split <;> rfl

theorem closingAll_spec {w : World} {fds : List Nat} (hw : w.Sound)
    (h : (fds : Multiset Nat) ≤ w.live) :
    (w.closingAll fds).Sound ∧ w.live = (w.closingAll fds).live + fds ∧
      (w.closingAll fds).tables = w.tables := by
  induction fds generalizing w with
  | nil => exact ⟨hw, (add_zero _).symm, rfl⟩
  | cons fd fds ih =>
      have hmem : fd ∈ w.live := Multiset.mem_of_le h (by simp)
      have hlive := live_closing hmem
      have hrest : (fds : Multiset Nat) ≤ (w.closing fd).live := by
        rw [← Multiset.cons_coe, hlive] at h
        exact (Multiset.cons_le_cons_iff fd).1 h
      obtain ⟨hsound, hlive', htables⟩ := ih (hw.closing hmem) hrest
      refine ⟨hsound, ?_, htables.trans (closing_tables w fd)⟩
      rw [hlive, hlive', ← Multiset.cons_coe, Multiset.add_cons]
      rfl

/-! ## The calls keep accounts -/

section Engine

variable [FloatNum F]

/-- The steps of a run in which no `os.close` fails in the lock region of `bind_state`. -/
def orderly (w : World) (c : (interface F).Call) (r : Except Exc c.Answer) (w' : World) : Prop :=
  answers w c r w' ∧ ∀ binding, c = Call.bind binding → ∃ a, r = .ok a

theorem orderly_valid (w : World) (c : (interface F).Call) (r : Except Exc c.Answer) (w' : World)
    (h : orderly w c r w') : Orderly c r := by
  rintro (rfl | ⟨binding, rfl⟩)
  · exact h.1.1
  · exact h.2 binding rfl

theorem Inert.after {held : Multiset Nat} {c : (interface F).Call} (h : Inert held c)
    (r : Except Exc c.Answer) : (handling F).after c r held = held := by
  rw [Handling.after, h.takes r, h.gives r, Multiset.sub_zero, add_zero]

/-- A step that leaves the descriptors, and those of the bindings, as they are. -/
theorem accounts_of_inert {w w' : World} {c : (interface F).Call} {r : Except Exc c.Answer}
    {held rest : Multiset Nat} (hc : Inert held c) (hsound : w'.Sound) (hlive : w'.live = w.live)
    (hkept : w'.kept = w.kept) (h : w.live = w.kept + held + rest) :
    w'.Sound ∧ w'.live = w'.kept + (handling F).after c r held + rest :=
  ⟨hsound, by rw [hlive, hkept, hc.after r, h]⟩

theorem accounts_opening {w : World} {c : (interface F).Call} {r : Except Exc c.Answer} {fd : Nat}
    {held rest : Multiset Nat} (htakes : (handling F).takes c r = 0)
    (hgives : (handling F).gives c r = {fd}) (hsound : w.Sound) (hfree : w.Free fd)
    (h : w.live = w.kept + held + rest) :
    (w.opening fd).Sound ∧
      (w.opening fd).live = (w.opening fd).kept + (handling F).after c r held + rest := by
  refine ⟨hsound.opening hfree, ?_⟩
  rw [live_opening hfree, h, Handling.after, htakes, hgives, Multiset.sub_zero]
  show _ = w.kept + (held + {fd}) + rest
  abel

theorem accounts_touching {w : World} {c : (interface F).Call} {r : Except Exc c.Answer} {fd : Nat}
    {held rest : Multiset Nat} (huses : (handling F).uses c = {fd})
    (htakes : ∀ r, (handling F).takes c r = 0) (hgives : ∀ r, (handling F).gives c r = 0)
    (hsound : w.Sound) (hheld : (handling F).uses c ≤ held) (h : w.live = w.kept + held + rest) :
    (w.touching fd).Sound ∧
      (w.touching fd).live = (w.touching fd).kept + (handling F).after c r held + rest := by
  have hmem : fd ∈ w.live := by
    have hfd : fd ∈ held := Multiset.mem_of_le hheld (huses ▸ Multiset.mem_singleton_self fd)
    rw [h]
    simp [hfd]
  rw [touching_live hmem]
  exact accounts_of_inert ⟨hheld, htakes, hgives⟩ hsound rfl rfl h

theorem accounts_closing {w : World} {fd : Nat} {r : Except Exc Unit} {held rest : Multiset Nat}
    (hsound : w.Sound) (hheld : {fd} ≤ held) (h : w.live = w.kept + held + rest) :
    (w.closing fd).Sound ∧
      (w.closing fd).live =
        (w.closing fd).kept + (handling F).after (Call.close fd) r held + rest := by
  have hmem : fd ∈ held := Multiset.singleton_le.1 hheld
  have hlive : fd ∈ w.live := by
    rw [h]
    simp [hmem]
  refine ⟨hsound.closing hlive, ?_⟩
  obtain ⟨others, rfl⟩ := Multiset.exists_cons_of_mem hmem
  have hafter : (handling F).after (Call.close fd) r (fd ::ₘ others) = others := by
    show (fd ::ₘ others) - {fd} + 0 = others
    rw [add_zero, Multiset.sub_singleton, Multiset.erase_cons_head]
  rw [live_closing hlive, Multiset.add_cons, Multiset.cons_add] at h
  rw [hafter, Multiset.cons_inj_right fd |>.1 h, World.kept, World.kept, closing_tables]

theorem accounts_bind {w : World} {binding : BoundTarget} {closing : Nat → Option Exc}
    {region : Region} {held rest : Multiset Nat} (hsound : w.Sound)
    (hrun : Region.swapBinding closing binding { bindings := w.tables.bindings } = .ok () region)
    (hheld : single binding.fileFd ≤ held) (h : w.live = w.kept + held + rest) :
    ((w.closingAll region.closed).setBindings region.bindings).Sound ∧
      ((w.closingAll region.closed).setBindings region.bindings).live =
        ((w.closingAll region.closed).setBindings region.bindings).kept +
          (handling F).after (Call.bind binding) (.ok ()) held + rest := by
  obtain ⟨htotal, hsize⟩ := Region.swapBinding_ok hrun
  obtain ⟨others, rfl⟩ := Multiset.le_iff_exists_add.1 hheld
  have htotal' : fdsOf region.bindings + (region.closed : Multiset Nat) =
      w.kept + single binding.fileFd := by
    simpa [Region.total, World.kept] using htotal
  have hclosed : (region.closed : Multiset Nat) ≤ w.live := by
    refine (Multiset.le_add_left _ (fdsOf region.bindings)).trans ?_
    rw [htotal', h]
    refine Multiset.le_iff_exists_add.2 ⟨others + rest, ?_⟩
    abel
  obtain ⟨hsound', hlive, htables⟩ := closingAll_spec hsound hclosed
  refine ⟨⟨hsize, hsound'.strays, hsound'.openings, hsound'.others⟩, ?_⟩
  have hafter : (handling F).after (Call.bind binding) (.ok ()) (single binding.fileFd + others) =
      others := by
    show (single binding.fileFd + others) - single binding.fileFd + 0 = others
    rw [add_zero, add_tsub_cancel_left]
  rw [hafter]
  refine add_right_cancel (b := (region.closed : Multiset Nat)) ?_
  calc (w.closingAll region.closed).live + (region.closed : Multiset Nat) = w.live := hlive.symm
    _ = w.kept + single binding.fileFd + (others + rest) := by rw [h]; abel
    _ = fdsOf region.bindings + (region.closed : Multiset Nat) + (others + rest) := by rw [htotal']
    _ = fdsOf region.bindings + others + rest + (region.closed : Multiset Nat) := by abel

theorem accounts_pop {w : World} {id : PyStr} {held rest : Multiset Nat} (hsound : w.Sound)
    (h : w.live = w.kept + held + rest) :
    (w.setBindings (w.tables.bindings.pop id)).Sound ∧
      (w.setBindings (w.tables.bindings.pop id)).live =
        (w.setBindings (w.tables.bindings.pop id)).kept +
          (handling F).after (Call.popBinding id) (.ok (w.tables.bindings.get? id)) held + rest := by
  refine ⟨⟨(Region.size_pop_le _ id).trans hsound.bindings, hsound.strays, hsound.openings,
    hsound.others⟩, ?_⟩
  show w.live = fdsOf (w.tables.bindings.pop id) +
    (held - 0 + single ((w.tables.bindings.get? id).bind BoundTarget.fileFd)) + rest
  rw [h, World.kept, fdsOf_pop w.tables.bindings id, Multiset.sub_zero]
  abel

/-- The engine's calls keep accounts. -/
theorem accounts : Accounts (handling F) orderly Outside World.Sound World.live World.kept where
  call := by
    rintro w c r w' held rest ⟨hanswers, horderly⟩ hsound huses htakes h
    have hapart : ∀ c : (interface F).Call, Apart c → ∀ r : Except Exc c.Answer, w' = w →
        w'.Sound ∧ w'.live = w'.kept + (handling F).after c r held + rest := by
      rintro c hc r rfl
      exact accounts_of_inert (Inert.ofApart held hc) hsound rfl rfl h
    cases c with
    | openFile path =>
        cases r with
        | ok fd =>
            obtain ⟨hfree, rfl⟩ := hanswers
            exact accounts_opening rfl rfl hsound hfree h
        | error e =>
            obtain rfl : w' = w := hanswers
            exact ⟨hsound, by
              show w'.live = w'.kept + (held - 0 + 0) + rest
              rw [Multiset.sub_zero, add_zero, h]⟩
    | pidfdOpen pid =>
        cases r with
        | ok fd =>
            obtain ⟨hfree, rfl⟩ := hanswers
            exact accounts_opening rfl rfl hsound hfree h
        | error e =>
            obtain rfl : w' = w := hanswers
            exact ⟨hsound, by
              show w'.live = w'.kept + (held - 0 + 0) + rest
              rw [Multiset.sub_zero, add_zero, h]⟩
    | fstat fd =>
        obtain rfl : w' = w.touching fd := hanswers
        exact accounts_touching rfl (fun _ => rfl) (fun _ => rfl) hsound huses h
    | readAll fd =>
        obtain rfl : w' = w.touching fd := hanswers
        exact accounts_touching rfl (fun _ => rfl) (fun _ => rfl) hsound huses h
    | lseek fd =>
        obtain rfl : w' = w.touching fd := hanswers
        exact accounts_touching rfl (fun _ => rfl) (fun _ => rfl) hsound huses h
    | sendSignal fd s =>
        obtain rfl : w' = w.touching fd := hanswers
        exact accounts_touching rfl (fun _ => rfl) (fun _ => rfl) hsound huses h
    | waitPidfd fd s =>
        obtain rfl : w' = w.touching fd := hanswers
        exact accounts_touching rfl (fun _ => rfl) (fun _ => rfl) hsound huses h
    | close fd =>
        obtain rfl : w' = w.closing fd := hanswers
        exact accounts_closing hsound huses h
    | bind binding =>
        obtain ⟨closing, region, hresult, rfl⟩ := hanswers
        obtain ⟨u, rfl⟩ := horderly binding rfl
        rcases hresult with ⟨hrun, -⟩ | ⟨e, -, herror⟩
        · exact accounts_bind hsound hrun htakes h
        · cases herror
    | popBinding id =>
        obtain ⟨rfl, rfl⟩ := hanswers
        exact accounts_pop hsound h
    | commit state a previous status =>
        obtain ⟨-, rfl⟩ := hanswers
        exact accounts_of_inert (Inert.ofApart held trivial)
          ⟨hsound.bindings, hsound.strays, hsound.openings, hsound.others⟩ rfl rfl h
    | monotonic => exact hapart .monotonic trivial r hanswers.2
    | enter state => exact hapart (.enter state) trivial r hanswers.2
    | getBinding id => exact hapart (.getBinding id) trivial r hanswers.2
    | bindingKeys => exact hapart .bindingKeys trivial r hanswers.2
    | readStat pid => exact hapart (.readStat pid) trivial r hanswers
    | readlinkExe pid => exact hapart (.readlinkExe pid) trivial r hanswers
    | statExe pid => exact hapart (.statExe pid) trivial r hanswers
    | statRoot pid => exact hapart (.statRoot pid) trivial r hanswers
    | lstat path => exact hapart (.lstat path) trivial r hanswers
    | resolve path => exact hapart (.resolve path) trivial r hanswers
    | quarantineFile file reason relatedPid rules processInfo =>
        exact hapart (.quarantineFile file reason relatedPid rules processInfo) trivial r hanswers
    | text value => exact hapart (.text value) trivial r hanswers
    | copy result => exact hapart (.copy result) trivial r hanswers
    | record result => exact hapart (.record result) trivial r hanswers
    | stamp => exact hapart .stamp trivial r hanswers
    | recordActionResult pid correlationId result =>
        exact hapart (.recordActionResult pid correlationId result) trivial r hanswers
  outside := by
    rintro w w' hout hsound
    cases hout with
    | opens hfree =>
        refine ⟨⟨hsound.bindings, hsound.strays, hsound.openings, fun n hn => ?_⟩, rfl, rfl⟩
        rcases List.mem_cons.1 hn with rfl | hn
        · exact hfree.1
        · exact hsound.others n hn
    | closes hmem =>
        exact ⟨⟨hsound.bindings, hsound.strays, hsound.openings,
          fun n hn => hsound.others n (List.mem_of_mem_erase hn)⟩, rfl, rfl⟩

end Engine

end Elyra.Response.Steps
