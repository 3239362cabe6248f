import Mathlib.Data.Finset.Card
import Mathlib.Data.Finset.Dedup
import Mathlib.Tactic

set_option autoImplicit false

/-! # Walking along a partial function

A search that follows a partial function and stops at a target, at the end, or at an element that it has
been at. It finds a target exactly if there is one on the way (`search_iff`), provided it may take as
many steps as there are elements that the function goes on from. -/

namespace Elyra.Counting

variable {α : Type}

/-- The search, from an element that may be missing. -/
def search [DecidableEq α] (next : α → Option α) (target : α → Bool) : Nat → List α → Option α → Bool
  | _, _, none => false
  | 0, _, some _ => false
  | fuel + 1, visited, some x =>
      if x ∈ visited then false
      else if target x then true
      else search next target fuel (x :: visited) (next x)

/-- The way from an element to the first target, with the elements passed on it. -/
inductive Passes (next : α → Option α) (target : α → Bool) : α → List α → Prop
  | here {x : α} (h : target x = true) : Passes next target x []
  | step {x y : α} {way : List α} (hx : target x = false) (hnext : next x = some y)
      (h : Passes next target y way) : Passes next target x (x :: way)

variable {next : α → Option α} {target : α → Bool} {x : α} {way : List α}

/-- Only the elements passed matter. -/
theorem Passes.congr {next' : α → Option α} (h : Passes next target x way)
    (hsame : ∀ y ∈ way, next' y = next y) : Passes next' target x way := by
  induction h with
  | here h => exact .here h
  | step hx hnext _ ih =>
      obtain ⟨hy, hway⟩ := List.forall_mem_cons.1 hsame
      exact .step hx (hy.trans hnext) (ih hway)

/-- The walk goes on from every element passed. -/
theorem Passes.next_of_mem (h : Passes next target x way) {y : α} (hy : y ∈ way) :
    ∃ z, next y = some z := by
  induction h with
  | here _ => cases hy
  | @step _ z _ _ hnext _ ih =>
      rcases List.mem_cons.1 hy with rfl | hy
      · exact ⟨z, hnext⟩
      · exact ih hy

/-- There is a way where a target is reached. -/
theorem passes_iff_reaches : (∃ way, Passes next target x way) ↔
    ∃ y, target y = true ∧ Relation.ReflTransGen (fun a b => next a = some b) x y := by
  constructor
  · rintro ⟨way, hway⟩
    induction hway with
    | @here x h => exact ⟨x, h, .refl⟩
    | step _ hnext _ ih =>
        obtain ⟨z, hz, hreaches⟩ := ih
        exact ⟨z, hz, .head hnext hreaches⟩
  · rintro ⟨y, hy, hreaches⟩
    induction hreaches using Relation.ReflTransGen.head_induction_on with
    | refl => exact ⟨[], .here hy⟩
    | @head a b hnext _ ih =>
        obtain ⟨way, hway⟩ := ih
        -- a target may stand before the one that is reached
        cases ha : target a with
        | true => exact ⟨[], .here ha⟩
        | false => exact ⟨a :: way, .step ha hnext hway⟩

/-- What is found lies on the way. -/
theorem passes_of_search [DecidableEq α] {fuel : Nat} {visited : List α}
    (h : search next target fuel visited (some x) = true) : ∃ way, Passes next target x way := by
  induction fuel generalizing visited x with
  | zero => cases h
  | succ fuel ih =>
      rw [search] at h
      split at h
      · cases h
      split at h
      · next htarget => exact ⟨[], .here htarget⟩
      · next htarget =>
          cases hnext : next x with
          | none =>
              rw [hnext] at h
              simp [search] at h
          | some y =>
              rw [hnext] at h
              obtain ⟨way, hway⟩ := ih h
              exact ⟨x :: way, .step (by simpa using htarget) hnext hway⟩

/-- The visited elements lead to each other or to the one the search is at, and none is a target. -/
structure Closed (next : α → Option α) (target : α → Bool) (visited : List α) (x : Option α) : Prop where
  none_target : ∀ v ∈ visited, target v = false
  closed : ∀ v ∈ visited, ∀ y, next v = some y → y ∈ visited ∨ x = some y

/-- Nothing is found from inside a closed set. -/
theorem Closed.not_passes {visited : List α} (h : Closed next target visited none)
    (hway : Passes next target x way) : x ∉ visited := by
  induction hway with
  | here htarget =>
      intro hx
      rw [h.none_target _ hx] at htarget
      cases htarget
  | step _ hnext _ ih =>
      intro hx
      rcases h.closed _ hx _ hnext with hy | hy
      · exact ih hy
      · cases hy

/-- With enough fuel the search finds what is on the way. -/
theorem search_of_passes [DecidableEq α] {dom : Finset α} (hdom : ∀ a b, next a = some b → a ∈ dom)
    {fuel : Nat} {visited : List α} (hclosed : Closed next target visited (some x))
    (hway : Passes next target x way) (hx : x ∉ visited)
    (hfuel : (dom \ visited.toFinset).card < fuel) :
    search next target fuel visited (some x) = true := by
  induction fuel generalizing visited x way with
  | zero => omega
  | succ fuel ih =>
      rw [search, if_neg hx]
      cases hway with
      | here htarget => rw [if_pos htarget]
      | @step _ y rest htarget hnext hrest =>
          rw [htarget, if_neg Bool.false_ne_true, hnext]
          have hnone : ∀ v ∈ x :: visited, target v = false := by
            rw [List.forall_mem_cons]
            exact ⟨htarget, hclosed.none_target⟩
          have hleads : ∀ v ∈ x :: visited, ∀ z, next v = some z → z ∈ x :: visited ∨ y = z := by
            rw [List.forall_mem_cons]
            constructor
            · intro z hz
              exact .inr (Option.some.inj (hnext.symm.trans hz))
            · intro v hv z hz
              rcases hclosed.closed v hv z hz with hmem | hxz
              · exact .inl (List.mem_cons_of_mem _ hmem)
              · exact .inl (Option.some.inj hxz ▸ List.mem_cons_self ..)
          -- the way goes on outside what has been visited: from inside nothing would be found
          have hy : y ∉ x :: visited := by
            intro hmem
            have hstuck : Closed next target (x :: visited) none :=
              ⟨hnone, fun v hv z hz => .inl ((hleads v hv z hz).elim id fun hyz => hyz ▸ hmem)⟩
            exact hstuck.not_passes hrest hmem
          refine ih ⟨hnone, fun v hv z hz => (hleads v hv z hz).imp id (congrArg some)⟩ hrest hy ?_
          have hmem : x ∈ dom \ visited.toFinset :=
            Finset.mem_sdiff.2 ⟨hdom x y hnext, fun h => hx (List.mem_toFinset.1 h)⟩
          have hless : dom \ (x :: visited).toFinset = (dom \ visited.toFinset).erase x := by
            rw [List.toFinset_cons, Finset.sdiff_insert]
          rw [hless, Finset.card_erase_of_mem hmem]
          have hpos := Finset.card_pos.2 ⟨x, hmem⟩
          omega

/-- The search finds exactly what is on the way. -/
theorem search_iff [DecidableEq α] {dom : Finset α} (hdom : ∀ a b, next a = some b → a ∈ dom)
    {fuel : Nat} (hfuel : dom.card < fuel) :
    search next target fuel [] (some x) = true ↔ ∃ way, Passes next target x way := by
  refine ⟨passes_of_search, ?_⟩
  rintro ⟨way, hway⟩
  refine search_of_passes hdom ⟨(fun _ h => nomatch h), (fun _ h => nomatch h)⟩ hway
    List.not_mem_nil ?_
  rwa [List.toFinset_nil, Finset.sdiff_empty]

end Elyra.Counting
