import Mathlib.Logic.Function.Basic
import Elyra.Python.OrderedDict

set_option autoImplicit false

/-! # Recently seen keys

A memory of when each key was last seen. A key that comes again within a window is a repeat and is not
noted; any other is noted at the end of an ordered dictionary, and what has left the window is taken off
its front.

Where the times do not go back, the order of the dictionary is the order of the times, and the memory
finds the same repeats as one that forgets nothing (`Exact.note`). -/

namespace Elyra.Counting

open Elyra.Python

variable {κ : Type} [DecidableEq κ]

/-- The key was last seen within the window. A time before the last one is within it. -/
def isRepeat (window : Nat) (last : Option Nat) (t : Nat) : Bool :=
  last.any fun previous => decide (t ≤ previous + window)

/-- One key at a time; `none` for a repeat. -/
def note (window : Nat) (d : Dict κ Nat) (k : κ) (t : Nat) : Option (Dict κ Nat) :=
  if isRepeat window (d.get? k) t then none
  else some ((d.setLast k t).popWhile fun kv => decide (kv.2 + window < t))

/-- The same without forgetting. -/
def noteForever (window : Nat) (m : κ → Option Nat) (k : κ) (t : Nat) : Option (κ → Option Nat) :=
  if isRepeat window (m k) t then none else some (Function.update m k (some t))

variable {window : Nat} {d d' : Dict κ Nat} {m : κ → Option Nat} {k : κ} {t now : Nat}

theorem isRepeat_eq_true {last : Option Nat} :
    isRepeat window last t = true ↔ ∃ previous, last = some previous ∧ t ≤ previous + window := by
  cases last <;> simp [isRepeat]

theorem note_eq_none :
    note window d k t = none ↔ ∃ previous, d.get? k = some previous ∧ t ≤ previous + window := by
  rw [note, ← isRepeat_eq_true]
  split
  · next h => exact iff_of_true rfl h
  · next h => exact iff_of_false nofun h

theorem note_eq_some (h : note window d k t = some d') :
    isRepeat window (d.get? k) t = false ∧
      d' = (d.setLast k t).popWhile fun kv => decide (kv.2 + window < t) := by
  unfold note at h
  split at h
  · cases h
  · next hnew => exact ⟨by simpa using hnew, (Option.some.inj h).symm⟩

/-- Whatever is remembered afterwards was remembered before, or is the key noted. -/
theorem get?_of_note (h : note window d k t = some d') {k' : κ} {t' : Nat}
    (hget : d'.get? k' = some t') : k' = k ∧ t' = t ∨ d.get? k' = some t' := by
  obtain ⟨-, rfl⟩ := note_eq_some h
  have hlast := Dict.get?_of_popWhile hget
  rw [Dict.get?_setLast] at hlast
  split at hlast
  · next hk => exact .inl ⟨hk, (Option.some.inj hlast).symm⟩
  · exact .inr hlast

/-- The memory against the one that forgets nothing, at a time that nothing remembered is after. -/
structure Exact (window : Nat) (d : Dict κ Nat) (m : κ → Option Nat) (now : Nat) : Prop where
  sorted : d.items.Pairwise fun a b => a.2 ≤ b.2
  sound : ∀ k t, d.get? k = some t → m k = some t
  past : ∀ k t, m k = some t → t ≤ now
  kept : ∀ k t, m k = some t → d.get? k = some t ∨ t + window < now

theorem Exact.empty : Exact window (Dict.empty : Dict κ Nat) (fun _ => none) now :=
  ⟨List.Pairwise.nil, (fun _ _ h => nomatch h), (fun _ _ h => nomatch h), (fun _ _ h => nomatch h)⟩

theorem Exact.mono (h : Exact window d m now) (hle : now ≤ t) : Exact window d m t :=
  ⟨h.sorted, h.sound, fun k t' hm => (h.past k t' hm).trans hle,
    fun k t' hm => (h.kept k t' hm).imp id fun hlt => lt_of_lt_of_le hlt hle⟩

/-- Both memories find the same repeats. -/
theorem Exact.isRepeat_eq (h : Exact window d m now) (hle : now ≤ t) :
    isRepeat window (d.get? k) t = isRepeat window (m k) t := by
  rw [Bool.eq_iff_iff, isRepeat_eq_true, isRepeat_eq_true]
  constructor
  · rintro ⟨previous, hd, ht⟩
    exact ⟨previous, h.sound k previous hd, ht⟩
  · rintro ⟨previous, hm, ht⟩
    rcases h.kept k previous hm with hd | hlt
    · exact ⟨previous, hd, ht⟩
    · omega

/-- Taking the old items off the front leaves none where the times are in order. -/
theorem mem_dropWhile_recent {ι : Type} {items : List (ι × Nat)}
    (h : items.Pairwise fun a b => a.2 ≤ b.2) {kv : ι × Nat}
    (hmem : kv ∈ items.dropWhile fun kv => decide (kv.2 + window < t)) :
    t ≤ kv.2 + window := by
  induction items with
  | nil => cases hmem
  | cons first items ih =>
      obtain ⟨hfirst, hrest⟩ := List.pairwise_cons.1 h
      rw [List.dropWhile_cons] at hmem
      split at hmem
      · exact ih hrest hmem
      · next hold =>
          rw [decide_eq_true_iff, not_lt] at hold
          rcases List.mem_cons.1 hmem with rfl | hmem
          · exact hold
          · exact hold.trans (Nat.add_le_add_right (hfirst kv hmem) window)

/-- Noting a key keeps the times in order, and leaves only what is within the window. -/
theorem Exact.note (h : Exact window d m now) (hle : now ≤ t)
    (hnote : Counting.note window d k t = some d') :
    Exact window d' (Function.update m k (some t)) t ∧
      ∀ k' t', d'.get? k' = some t' → t' ≤ t ∧ t ≤ t' + window := by
  obtain ⟨-, rfl⟩ := note_eq_some hnote
  have hpop : (d.pop k).items.Sublist d.items := remove_sublist k d.items
  have hlast : (d.setLast k t).items.Pairwise fun a b => a.2 ≤ b.2 := by
    rw [Dict.items_setLast, List.pairwise_append]
    refine ⟨h.sorted.sublist hpop, List.pairwise_singleton _ _, ?_⟩
    intro a ha b hb
    rw [List.mem_singleton.1 hb]
    have hget := Dict.mem_items.1 (hpop.subset ha)
    exact (h.past _ _ (h.sound _ _ hget)).trans hle
  have hpast : ∀ k' t', Function.update m k (some t) k' = some t' → t' ≤ t := by
    intro k' t' hm
    rw [Function.update_apply] at hm
    split at hm
    · exact (Option.some.inj hm).symm.le
    · exact (h.past k' t' hm).trans hle
  have hsound : ∀ k' t', ((d.setLast k t).popWhile fun kv => decide (kv.2 + window < t)).get? k' =
      some t' → Function.update m k (some t) k' = some t' := by
    intro k' t' hget
    have hget := Dict.get?_of_popWhile hget
    rw [Dict.get?_setLast] at hget
    rw [Function.update_apply]
    split
    · next hk => rwa [if_pos hk] at hget
    · next hk =>
        rw [if_neg hk] at hget
        exact h.sound k' t' hget
  refine ⟨⟨hlast.sublist (List.dropWhile_sublist _), hsound, hpast, ?_⟩, ?_⟩
  · intro k' t' hm
    by_cases hlt : t' + window < t
    · exact .inr hlt
    refine .inl (Dict.get?_popWhile ?_ (decide_eq_false hlt))
    rw [Function.update_apply] at hm
    rw [Dict.get?_setLast]
    split
    · next hk => rwa [if_pos hk] at hm
    · next hk =>
        rw [if_neg hk] at hm
        exact (h.kept k' t' hm).resolve_right fun hold => hlt (lt_of_lt_of_le hold hle)
  · intro k' t' hget
    exact ⟨hpast k' t' (hsound k' t' hget), mem_dropWhile_recent hlast (Dict.mem_items.2 hget)⟩

end Elyra.Counting
