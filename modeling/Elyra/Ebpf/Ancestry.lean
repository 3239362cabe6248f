import Elyra.Ebpf.Descendants

set_option autoImplicit false

/-! # The search for a monitored ancestor

`EbpfFilterConfig.accepts` over any integers. The collector calls it with the ids of kernel events, which
are never negative, but neither the event nor the ancestry map has to be one of the kernel's; a map that
was filled across the reuse of ids may lead round in a circle. The loop is bounded by a number of rounds,
and comes to an end of its own within two rounds more than the map has entries (`climb_isSome`). -/

namespace Elyra.Ebpf

open Elyra.Python Elyra.Counting Relation

/-! ## The filter -/

/-- What `accepts` reads of an event. -/
structure EventIds where
  tgid : Int
  pid : Int
  uid : Int
  ppid : Int

namespace EbpfFilterConfig

variable (cfg : EbpfFilterConfig)

/-- The `while` loop; `none` where it has not ended after so many rounds. -/
def climb (ancestry : Dict Int Int) : Nat → Int → List Int → Option Bool
  | 0, _, _ => none
  | rounds + 1, current, visited =>
      if 0 < current ∧ current ∉ visited then
        if current ∈ cfg.monitoredTgids then some true
        else climb ancestry rounds ((ancestry.get? current).getD 0) (current :: visited)
      else some false

/-- `accepts`, where its loop ends within so many rounds. -/
def acceptsWithin (rounds : Nat) (event : EventIds) (ancestry : Dict Int Int) : Option Bool :=
  if event.tgid ∈ cfg.ignoredTgids ∨ event.pid ∈ cfg.ignoredTgids then some false
  else if ¬ (cfg.monitoredUids = ∅ ∨ event.uid ∈ cfg.monitoredUids) then some false
  else if cfg.monitoredTgids = ∅ then some true
  else if event.tgid ∈ cfg.monitoredTgids ∨ event.pid ∈ cfg.monitoredTgids then some true
  else if ¬ cfg.includeDescendants then some false
  else cfg.climb ancestry rounds event.ppid []

end EbpfFilterConfig

/-! ## Reachability -/

/-- The map leads from one id to another, which is positive. -/
def Leads (ancestry : Dict Int Int) (x y : Int) : Prop := ancestry.get? x = some y ∧ 0 < y

/-- The id is reached through positive ids. -/
def Reached (ancestry : Dict Int Int) (x y : Int) : Prop := 0 < x ∧ ReflTransGen (Leads ancestry) x y

/-- The next id of the loop, where there is one. -/
def nextId (ancestry : Dict Int Int) (current : Int) : Option Int :=
  if 0 < (ancestry.get? current).getD 0 then ancestry.get? current else none

section Loop

variable {cfg : EbpfFilterConfig} {ancestry : Dict Int Int} {rounds : Nat} {current x y : Int}
  {visited : List Int} {answer : Bool}

theorem nextId_eq_some : nextId ancestry x = some y ↔ Leads ancestry x y := by
  unfold nextId Leads
  cases hget : ancestry.get? x with
  | none => simp
  | some z =>
      rw [Option.getD_some]
      constructor
      · intro h
        split at h
        · next hpos =>
            cases h
            exact ⟨rfl, hpos⟩
        · cases h
      · rintro ⟨hz, hpos⟩
        cases hz
        rw [if_pos hpos]

/-- The ids that the loop goes on from are keys of the map. -/
theorem mem_keys_of_leads (h : nextId ancestry x = some y) : x ∈ (keys ancestry.items).toFinset := by
  obtain ⟨hget, -⟩ := nextId_eq_some.1 h
  exact List.mem_toFinset.2 (List.mem_map_of_mem (Dict.mem_items.2 hget))

theorem climb_of_stop (h : ¬ (0 < current ∧ current ∉ visited)) :
    cfg.climb ancestry (rounds + 1) current visited = some false := by
  rw [EbpfFilterConfig.climb, if_neg h]

/-- Each round but the last two visits another key. -/
theorem climb_isSome (h : ((keys ancestry.items).toFinset \ visited.toFinset).card + 2 ≤ rounds) :
    (cfg.climb ancestry rounds current visited).isSome = true := by
  induction rounds generalizing current visited with
  | zero => omega
  | succ rounds ih =>
      rw [EbpfFilterConfig.climb]
      split
      · next hgoes =>
        split
        · rfl
        · by_cases hkey : current ∈ (keys ancestry.items).toFinset
          · refine ih ?_
            have hmem : current ∈ (keys ancestry.items).toFinset \ visited.toFinset :=
              Finset.mem_sdiff.2 ⟨hkey, fun h => hgoes.2 (List.mem_toFinset.1 h)⟩
            have hpos := Finset.card_pos.2 ⟨current, hmem⟩
            rw [List.toFinset_cons, Finset.sdiff_insert, Finset.card_erase_of_mem hmem]
            omega
          · -- the map has no entry for the id, and the loop ends at 0
            have hnone : ancestry.get? current = none :=
              lookup_eq_none_iff.2 fun hmem => hkey (List.mem_toFinset.2 hmem)
            obtain ⟨rounds, rfl⟩ : ∃ n, rounds = n + 1 := ⟨rounds - 1, by omega⟩
            rw [hnone, Option.getD_none, climb_of_stop (by simp)]
            rfl
      · rfl

/-- Where the loop ends, it is the search for a monitored id. -/
theorem climb_eq_search (h : cfg.climb ancestry rounds current visited = some answer) :
    answer = search (nextId ancestry) (fun id => decide (id ∈ cfg.monitoredTgids)) rounds visited
      (if 0 < current then some current else none) := by
  induction rounds generalizing current visited with
  | zero => cases h
  | succ rounds ih =>
      rw [EbpfFilterConfig.climb] at h
      by_cases hpos : 0 < current
      · rw [if_pos hpos, search]
        by_cases hvisited : current ∈ visited
        · rw [if_neg fun hgoes => hgoes.2 hvisited] at h
          cases h
          rw [if_pos hvisited]
        · rw [if_pos ⟨hpos, hvisited⟩] at h
          rw [if_neg hvisited]
          split at h
          · next hmonitored =>
            cases h
            rw [if_pos (decide_eq_true hmonitored)]
          · next hmonitored =>
            rw [if_neg (by simpa using hmonitored), ih h]
            unfold nextId
            split
            · next hnext =>
              cases hget : ancestry.get? current with
              | none => simp [hget] at hnext
              | some z => rfl
            · rfl
      · rw [if_neg fun hgoes => hpos hgoes.1] at h
        cases h
        rw [if_neg hpos, search]

/-- The loop from the parent of an event finds what the map leads to. -/
theorem climb_true_iff (hrounds : ancestry.size + 2 ≤ rounds)
    (h : cfg.climb ancestry rounds current [] = some answer) :
    answer = true ↔ ∃ id ∈ cfg.monitoredTgids, Reached ancestry current id := by
  rw [climb_eq_search h]
  by_cases hpos : 0 < current
  · have hcard : (keys ancestry.items).toFinset.card < rounds := by
      have hle := Dict.card_keys_le ancestry
      omega
    rw [if_pos hpos, search_iff (fun _ _ => mem_keys_of_leads) hcard, passes_iff_reaches]
    simp only [decide_eq_true_eq, nextId_eq_some, Reached, hpos, true_and]
  · rw [if_neg hpos]
    simp [search, Reached, hpos]

/-- The loop ends, and always with the same answer. -/
theorem climb_answer (cfg : EbpfFilterConfig) (ancestry : Dict Int Int) (current : Int) :
    ∃ answer, (∀ rounds, ancestry.size + 2 ≤ rounds → cfg.climb ancestry rounds current [] = some answer) ∧
      (answer = true ↔ ∃ id ∈ cfg.monitoredTgids, Reached ancestry current id) := by
  have hends (rounds : Nat) (hrounds : ancestry.size + 2 ≤ rounds) :
      ∃ answer, cfg.climb ancestry rounds current [] = some answer := by
    refine Option.isSome_iff_exists.1 (climb_isSome ?_)
    have hle := Dict.card_keys_le ancestry
    rw [List.toFinset_nil, Finset.sdiff_empty]
    omega
  obtain ⟨answer, hanswer⟩ := hends _ le_rfl
  refine ⟨answer, fun rounds hrounds => ?_, climb_true_iff le_rfl hanswer⟩
  obtain ⟨answer', hanswer'⟩ := hends rounds hrounds
  have hsame : answer' = true ↔ answer = true :=
    (climb_true_iff hrounds hanswer').trans (climb_true_iff le_rfl hanswer).symm
  rw [hanswer', Bool.eq_iff_iff.2 hsame]

end Loop

/-- **The search for a monitored ancestor ends**, and finds one exactly if the map leads to it. -/
theorem accepts_reached (cfg : EbpfFilterConfig) (event : EventIds) (ancestry : Dict Int Int)
    (hignored : event.tgid ∉ cfg.ignoredTgids ∧ event.pid ∉ cfg.ignoredTgids)
    (huid : cfg.monitoredUids = ∅ ∨ event.uid ∈ cfg.monitoredUids) :
    ∃ answer, (∀ rounds, ancestry.size + 2 ≤ rounds →
        cfg.acceptsWithin rounds event ancestry = some answer) ∧
      (cfg.monitoredTgids ≠ ∅ → cfg.includeDescendants = true →
        (answer = true ↔ event.tgid ∈ cfg.monitoredTgids ∨ event.pid ∈ cfg.monitoredTgids ∨
          ∃ id ∈ cfg.monitoredTgids, Reached ancestry event.ppid id)) := by
  simp only [EbpfFilterConfig.acceptsWithin, if_neg (not_or.2 hignored), if_neg (not_not_intro huid)]
  by_cases hnone : cfg.monitoredTgids = ∅
  · simp only [if_pos hnone]
    exact ⟨true, fun _ _ => rfl, fun hsome => absurd hnone hsome⟩
  simp only [if_neg hnone]
  by_cases hself : event.tgid ∈ cfg.monitoredTgids ∨ event.pid ∈ cfg.monitoredTgids
  · simp only [if_pos hself]
    exact ⟨true, fun _ _ => rfl, fun _ _ => iff_of_true rfl (hself.elim .inl fun h => .inr (.inl h))⟩
  simp only [if_neg hself]
  cases hdescendants : cfg.includeDescendants with
  | false => exact ⟨false, fun _ _ => rfl, fun _ h => nomatch h⟩
  | true =>
      obtain ⟨answer, hanswer, hreached⟩ := climb_answer cfg ancestry event.ppid
      refine ⟨answer, hanswer, fun _ _ => ?_⟩
      rw [hreached, ← or_assoc, or_iff_right hself]

/-- Two ids that lead to each other, and a third that leads to a monitored one. -/
def circle : Dict Int Int := ⟨[(5, 6), (6, 5), (7, 1)], by decide⟩

def monitorOne : EbpfFilterConfig := ⟨∅, {1}, ∅, true, 4096⟩

theorem circle_reached : ∃ answer,
    (∀ rounds, circle.size + 2 ≤ rounds → monitorOne.acceptsWithin rounds ⟨8, 8, 0, 5⟩ circle = some answer) ∧
      (monitorOne.monitoredTgids ≠ ∅ → monitorOne.includeDescendants = true →
        (answer = true ↔ (8 : Int) ∈ monitorOne.monitoredTgids ∨ (8 : Int) ∈ monitorOne.monitoredTgids ∨
          ∃ id ∈ monitorOne.monitoredTgids, Reached circle 5 id)) :=
  accepts_reached monitorOne ⟨8, 8, 0, 5⟩ circle (by decide) (.inl rfl)

example : monitorOne.acceptsWithin 5 ⟨8, 8, 0, 5⟩ circle = some false := by decide

example : monitorOne.acceptsWithin 5 ⟨8, 8, 0, 7⟩ circle = some true := by decide

/-! ## The filter of the collector -/

section Kernel

variable {cfg : EbpfFilterConfig} {parents : Dict Nat Nat} {x y : Nat}

def EbpfEvent.ids (e : EbpfEvent) : EventIds := ⟨e.tgid, e.pid, e.uid, e.ppid⟩

/-- A map of the kernel's ids. -/
def ints (parents : Dict Nat Nat) : Dict Int Int where
  items := parents.items.map fun kv => ((kv.1 : Int), (kv.2 : Int))
  nodup := by
    have hkeys : keys (parents.items.map fun kv => ((kv.1 : Int), (kv.2 : Int))) =
        (keys parents.items).map Nat.cast := by simp [keys]
    rw [hkeys]
    exact parents.nodup.map Nat.cast_injective

theorem get?_ints {z : Int} : (ints parents).get? x = some z ↔ ∃ y : Nat, z = y ∧ parents.get? x = some y := by
  rw [← Dict.mem_items]
  simp only [ints, List.mem_map, Prod.mk.injEq, Nat.cast_inj, Prod.exists]
  constructor
  · rintro ⟨a, b, hmem, rfl, rfl⟩
    exact ⟨b, rfl, Dict.mem_items.1 hmem⟩
  · rintro ⟨b, rfl, hget⟩
    exact ⟨x, b, Dict.mem_items.2 hget, rfl, rfl⟩

theorem leads_ints {z : Int} : Leads (ints parents) x z ↔ ∃ y : Nat, z = y ∧ parentIn parents x = some y := by
  rw [Leads, get?_ints]
  constructor
  · rintro ⟨⟨y, rfl, hget⟩, hpos⟩
    exact ⟨y, rfl, by rw [parentIn, hget, Option.getD_some, positive, if_pos (by omega)]⟩
  · rintro ⟨y, rfl, hparent⟩
    obtain ⟨z, hget⟩ := get?_of_parentIn hparent
    rw [parentIn, hget, Option.getD_some, positive] at hparent
    split at hparent
    · next hpos =>
        cases hparent
        exact ⟨⟨y, rfl, hget⟩, by omega⟩
    · cases hparent

theorem reaches_ints {z : Int} : ReflTransGen (Leads (ints parents)) x z ↔
    ∃ y : Nat, z = y ∧ ReflTransGen (fun a b => parentIn parents a = some b) x y := by
  constructor
  · intro h
    induction h with
    | refl => exact ⟨x, rfl, .refl⟩
    | tail _ hleads ih =>
        obtain ⟨y, rfl, hreaches⟩ := ih
        obtain ⟨w, rfl, hparent⟩ := leads_ints.1 hleads
        exact ⟨w, rfl, hreaches.tail hparent⟩
  · rintro ⟨y, rfl, h⟩
    exact h.lift _ fun a b hparent => leads_ints.2 ⟨b, rfl, hparent⟩

/-- The filter of the collector on its own ids. -/
theorem acceptsWithin_ids (e : EbpfEvent) {rounds : Nat} (hrounds : parents.size + 2 ≤ rounds) :
    cfg.acceptsWithin rounds e.ids (ints parents) = some (cfg.accepts e parents) := by
  have hsize : (ints parents).size = parents.size := List.length_map _
  obtain ⟨answer, hanswer, hreached⟩ := climb_answer cfg (ints parents) e.ppid
  have hdescends : cfg.descends e.ppid parents = answer := by
    rw [Bool.eq_iff_iff, hreached, descends_iff, passes_iff_reaches]
    simp only [Reached, reaches_ints, EbpfFilterConfig.monitors, decide_eq_true_eq, Nat.cast_pos]
    constructor
    · rintro ⟨hpos, y, hy, h⟩
      exact ⟨y, hy, hpos, y, rfl, h⟩
    · rintro ⟨z, hz, hpos, y, rfl, h⟩
      exact ⟨hpos, y, hz, h⟩
  rw [EbpfFilterConfig.acceptsWithin, EbpfFilterConfig.accepts, hdescends]
  rw [show cfg.climb (ints parents) rounds e.ids.ppid [] = some answer from hanswer rounds (by omega)]
  simp only [EbpfFilterConfig.ignores, EbpfFilterConfig.uidOk, EbpfFilterConfig.monitors, EbpfEvent.ids]
  by_cases hignored : (e.tgid : Int) ∈ cfg.ignoredTgids ∨ (e.pid : Int) ∈ cfg.ignoredTgids
  · simp only [hignored, if_true, decide_true]
  by_cases huid : cfg.monitoredUids = ∅ ∨ (e.uid : Int) ∈ cfg.monitoredUids
  swap
  · simp [hignored, huid]
  by_cases hself : (e.tgid : Int) ∈ cfg.monitoredTgids ∨ (e.pid : Int) ∈ cfg.monitoredTgids
  · simp [hignored, huid, hself]
  · obtain ⟨htgid, hpid⟩ := not_or.1 hself
    simp only [hignored, huid, htgid, hpid, or_self, if_false, not_true, decide_true, decide_false, Bool.or_self,
      Bool.not_true, Bool.false_eq_true]
    cases cfg.includeDescendants <;> by_cases hnone : cfg.monitoredTgids = ∅ <;> simp [hnone]

end Kernel

end Elyra.Ebpf
