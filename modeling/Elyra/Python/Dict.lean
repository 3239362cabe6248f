import Mathlib.Tactic
import Mathlib.Data.List.Perm.Basic
import Mathlib.Data.List.Nodup

set_option autoImplicit false

/-! # Dictionaries

A Python `dict` as the list of its items in insertion order. `assign` is `d[k] = v`, `remove` is
`d.pop(k, None)`, `lookup` is `d.get(k)`. A list stands for a dictionary when its keys are distinct;
the operations keep that (`assign_nodup`, `remove_nodup`) and behave as updates of a finite map
(`lookup_assign`, `lookup_remove`). -/

namespace Elyra.Python

variable {κ α : Type} [DecidableEq κ]

/-- The keys in insertion order. -/
abbrev keys (d : List (κ × α)) : List κ := d.map Prod.fst

/-- `d.get(k)`; `none` stands for an absent key. -/
def lookup (k : κ) : List (κ × α) → Option α
  | [] => none
  | (k', v) :: rest => if k' = k then some v else lookup k rest

/-- `d[k] = v`: replace in place, or append. -/
def assign (k : κ) (v : α) : List (κ × α) → List (κ × α)
  | [] => [(k, v)]
  | (k', v') :: rest => if k' = k then (k, v) :: rest else (k', v') :: assign k v rest

/-- `d.pop(k, None)`. -/
def remove (k : κ) : List (κ × α) → List (κ × α)
  | [] => []
  | (k', v) :: rest => if k' = k then rest else (k', v) :: remove k rest

attribute [grind =] lookup assign remove

/-- `dict(pairs)`: the last value of a key wins, at the key's first position. -/
def dictOf (kvs : List (κ × α)) : List (κ × α) :=
  kvs.foldl (fun acc kv => assign kv.1 kv.2 acc) []

/-! ## Lookup -/

theorem lookup_eq_none_iff {k : κ} {d : List (κ × α)} : lookup k d = none ↔ k ∉ keys d := by
  induction d with
  | nil => simp [lookup]
  | cons kv d ih =>
      obtain ⟨k', v⟩ := kv
      by_cases hk : k' = k
      · simp [lookup, hk]
      · have hk' : ¬ k = k' := fun h => hk h.symm
        simp [lookup, hk, hk', ih]

theorem mem_of_lookup {k : κ} {v : α} {d : List (κ × α)} (h : lookup k d = some v) :
    (k, v) ∈ d := by
  induction d with
  | nil => exact absurd h (by simp [lookup])
  | cons kv d ih =>
      obtain ⟨k', v'⟩ := kv
      simp only [lookup] at h
      split at h
      · next hk =>
        simp only [Option.some.injEq] at h
        subst hk h
        exact List.mem_cons_self ..
      · exact List.mem_cons_of_mem _ (ih h)

theorem lookup_eq_some_iff {k : κ} {v : α} {d : List (κ × α)} (hnd : (keys d).Nodup) :
    lookup k d = some v ↔ (k, v) ∈ d := by
  refine ⟨mem_of_lookup, ?_⟩
  induction d with
  | nil => simp
  | cons kv d ih =>
      obtain ⟨k', v'⟩ := kv
      simp only [keys, List.map_cons, List.nodup_cons] at hnd
      intro h
      rcases List.mem_cons.1 h with h | h
      · simp only [Prod.mk.injEq] at h
        simp [lookup, h.1, h.2]
      · have hne : ¬ k' = k := by
          rintro rfl
          exact hnd.1 (List.mem_map.2 ⟨_, h, rfl⟩)
        simp only [lookup, if_neg hne]
        exact ih hnd.2 h

theorem lookup_perm {k : κ} {d d' : List (κ × α)} (hnd : (keys d).Nodup) (h : d.Perm d') :
    lookup k d = lookup k d' := by
  have hnd' : (keys d').Nodup := (h.map Prod.fst).nodup_iff.1 hnd
  ext v
  rw [lookup_eq_some_iff hnd, lookup_eq_some_iff hnd', h.mem_iff]

/-! ## Assignment -/

theorem lookup_assign (k k' : κ) (v : α) (d : List (κ × α)) :
    lookup k' (assign k v d) = if k' = k then some v else lookup k' d := by
  induction d with
  | nil =>
      by_cases hk : k' = k
      · simp [assign, lookup, hk]
      · have hk' : ¬ k = k' := fun h => hk h.symm
        simp [assign, lookup, hk, hk']
  | cons kv d ih =>
      obtain ⟨k₀, v₀⟩ := kv
      by_cases h₀ : k₀ = k
      · subst h₀
        by_cases hk : k' = k₀
        · simp [assign, lookup, hk]
        · have hk' : ¬ k₀ = k' := fun h => hk h.symm
          simp [assign, lookup, hk, hk']
      · by_cases hk : k₀ = k'
        · have hne : ¬ k' = k := fun h => h₀ (hk.trans h)
          simp [assign, lookup, hk, hne]
        · simp [assign, lookup, h₀, hk, ih]

theorem assign_assign (k : κ) (v w : α) (d : List (κ × α)) :
    assign k w (assign k v d) = assign k w d := by
  induction d with
  | nil => simp [assign]
  | cons kv d ih =>
      obtain ⟨k', x⟩ := kv
      by_cases hk : k' = k
      · simp [assign, hk]
      · simp [assign, hk, ih]

/-- Assigning the value that is there already. -/
theorem assign_self {k : κ} {v : α} {d : List (κ × α)} (h : lookup k d = some v) :
    assign k v d = d := by
  induction d with
  | nil => simp [lookup] at h
  | cons kv d ih =>
      obtain ⟨k', x⟩ := kv
      by_cases hk : k' = k
      · simp only [lookup, hk, if_true, Option.some.injEq] at h
        simp [assign, hk, h]
      · simp only [lookup, if_neg hk] at h
        simp [assign, hk, ih h]

theorem assign_of_not_mem {k : κ} {v : α} {d : List (κ × α)} (h : k ∉ keys d) :
    assign k v d = d ++ [(k, v)] := by
  induction d with
  | nil => rfl
  | cons kv d ih =>
      simp only [keys, List.map_cons, List.mem_cons, not_or] at h
      simp [assign, Ne.symm h.1, ih h.2]

theorem filterMap_assign {β : Type} {f : κ × α → Option β} {k : κ} {v : α} (hf : ∀ v, f (k, v) = none)
    (d : List (κ × α)) : (assign k v d).filterMap f = d.filterMap f := by
  induction d with
  | nil => simp [assign, hf]
  | cons kv d ih =>
      obtain ⟨k', v'⟩ := kv
      by_cases hk : k' = k
      · subst hk
        simp [assign, hf]
      · simp only [assign, if_neg hk, List.filterMap_cons, ih]

theorem keys_assign (k : κ) (v : α) (d : List (κ × α)) :
    keys (assign k v d) = if k ∈ keys d then keys d else keys d ++ [k] := by
  induction d with
  | nil => rfl
  | cons kv d ih =>
      obtain ⟨k', v'⟩ := kv
      simp only [assign]
      by_cases hk : k' = k
      · simp [hk]
      · have hk' : ¬ k = k' := fun h => hk h.symm
        simp only [keys] at ih
        simp only [keys, if_neg hk, List.map_cons, ih, List.mem_cons, hk', false_or]
        split <;> simp

theorem assign_nodup {k : κ} {v : α} {d : List (κ × α)} (h : (keys d).Nodup) :
    (keys (assign k v d)).Nodup := by
  rw [keys_assign]
  split
  · exact h
  · next hk => exact h.append (List.nodup_singleton k) (List.disjoint_singleton.2 hk)

theorem mem_assign {k : κ} {v : α} {d : List (κ × α)} {kv : κ × α} (h : kv ∈ assign k v d) :
    kv = (k, v) ∨ kv ∈ d := by
  induction d with
  | nil => exact Or.inl (by simpa [assign] using h)
  | cons kv' d ih =>
      simp only [assign] at h
      split at h
      · rcases List.mem_cons.1 h with h | h
        · exact Or.inl h
        · exact Or.inr (List.mem_cons_of_mem _ h)
      · rcases List.mem_cons.1 h with rfl | h
        · exact Or.inr (List.mem_cons_self ..)
        · exact (ih h).imp id (List.mem_cons_of_mem _)

/-- A list of pairs without repeated keys is a dictionary as it is. -/
theorem dictOf_of_nodup {kvs : List (κ × α)} (h : (keys kvs).Nodup) : dictOf kvs = kvs := by
  have key : ∀ (kvs acc : List (κ × α)), (keys (acc ++ kvs)).Nodup →
      kvs.foldl (fun acc kv => assign kv.1 kv.2 acc) acc = acc ++ kvs := by
    intro kvs
    induction kvs with
    | nil => intro acc _; simp
    | cons kv kvs ih =>
        intro acc hnd
        have hkv : kv.1 ∉ keys acc := by
          simp only [keys, List.map_append, List.map_cons] at hnd
          intro hm
          exact (List.nodup_append.1 hnd).2.2 _ hm _ (List.mem_cons_self ..) rfl
        rw [List.foldl_cons, assign_of_not_mem hkv, ih _ (by simpa using hnd)]
        simp
  exact key kvs [] (by simpa using h)

/-- `dict(pairs)` is a dictionary, and its values are among those of the pairs. -/
theorem dictOf_spec (kvs : List (κ × α)) :
    (keys (dictOf kvs)).Nodup ∧ ∀ kv ∈ dictOf kvs, kv ∈ kvs := by
  have key : ∀ (kvs acc : List (κ × α)), (keys acc).Nodup →
      (keys (kvs.foldl (fun acc kv => assign kv.1 kv.2 acc) acc)).Nodup ∧
        ∀ kv ∈ kvs.foldl (fun acc kv => assign kv.1 kv.2 acc) acc, kv ∈ acc ∨ kv ∈ kvs := by
    intro kvs
    induction kvs with
    | nil => intro acc h; exact ⟨h, fun kv hkv => Or.inl hkv⟩
    | cons kv kvs ih =>
        intro acc h
        obtain ⟨h1, h2⟩ := ih (assign kv.1 kv.2 acc) (assign_nodup h)
        refine ⟨h1, ?_⟩
        intro x hx
        rcases h2 x hx with hx | hx
        · rcases mem_assign hx with rfl | hx
          · exact Or.inr (List.mem_cons_self ..)
          · exact Or.inl hx
        · exact Or.inr (List.mem_cons_of_mem _ hx)
  obtain ⟨h1, h2⟩ := key kvs [] List.nodup_nil
  exact ⟨h1, fun kv hkv => by simpa using h2 kv hkv⟩

/-- Two lists of pairs with the same keys, whose values are related place by place. -/
abbrev SameKeys {β : Type} (R : α → β → Prop) : List (κ × α) → List (κ × β) → Prop :=
  List.Forall₂ fun a b => a.1 = b.1 ∧ R a.2 b.2

theorem SameKeys.assign {β : Type} {R : α → β → Prop} {d : List (κ × α)} {d' : List (κ × β)}
    (h : SameKeys R d d') (k : κ) {v : α} {w : β} (hvw : R v w) :
    SameKeys R (assign k v d) (assign k w d') := by
  induction h with
  | nil => exact .cons ⟨rfl, hvw⟩ .nil
  | @cons a b d d' hab hrest ih =>
      obtain ⟨ka, va⟩ := a
      obtain ⟨kb, vb⟩ := b
      obtain ⟨rfl, hr⟩ := hab
      by_cases hk : ka = k
      · simpa only [Elyra.Python.assign, if_pos hk] using List.Forall₂.cons ⟨rfl, hvw⟩ hrest
      · simpa only [Elyra.Python.assign, if_neg hk] using List.Forall₂.cons ⟨rfl, hr⟩ ih

theorem SameKeys.lookup {β : Type} {R : α → β → Prop} {d : List (κ × α)} {d' : List (κ × β)}
    (h : SameKeys R d d') {k : κ} {v : α} (hv : lookup k d = some v) :
    ∃ w, lookup k d' = some w ∧ R v w := by
  induction h with
  | nil => exact absurd hv (by simp [Elyra.Python.lookup])
  | @cons a b d d' hab _ ih =>
      obtain ⟨ka, va⟩ := a
      obtain ⟨kb, vb⟩ := b
      obtain ⟨rfl, hr⟩ := hab
      rw [Elyra.Python.lookup] at hv ⊢
      by_cases hk : ka = k
      · rw [if_pos hk] at hv ⊢
        obtain rfl := Option.some.inj hv
        exact ⟨vb, rfl, hr⟩
      · rw [if_neg hk] at hv ⊢
        exact ih hv

/-- `dict(pairs)` keeps the last value of each key whatever the values are. -/
theorem SameKeys.dictOf {β : Type} {R : α → β → Prop} {kvs : List (κ × α)} {kvs' : List (κ × β)}
    (h : SameKeys R kvs kvs') : SameKeys R (dictOf kvs) (dictOf kvs') := by
  have key : ∀ {kvs : List (κ × α)} {kvs' : List (κ × β)}, SameKeys R kvs kvs' →
      ∀ {acc : List (κ × α)} {acc' : List (κ × β)}, SameKeys R acc acc' →
        SameKeys R (kvs.foldl (fun acc kv => Elyra.Python.assign kv.1 kv.2 acc) acc)
          (kvs'.foldl (fun acc kv => Elyra.Python.assign kv.1 kv.2 acc) acc') := by
    intro kvs kvs' h
    induction h with
    | nil => exact fun hacc => hacc
    | @cons a b kvs kvs' hab _ ih =>
        intro acc acc' hacc
        obtain ⟨ka, va⟩ := a
        obtain ⟨kb, vb⟩ := b
        obtain ⟨rfl, hr⟩ := hab
        exact ih (hacc.assign ka hr)
  exact key h .nil

/-! ## Removal -/

theorem remove_sublist (k : κ) (d : List (κ × α)) : (remove k d).Sublist d := by
  induction d with
  | nil => exact List.Sublist.refl _
  | cons kv d ih =>
      simp only [remove]
      split
      · exact List.sublist_cons_self ..
      · exact ih.cons_cons kv

theorem remove_nodup {k : κ} {d : List (κ × α)} (h : (keys d).Nodup) : (keys (remove k d)).Nodup :=
  ((remove_sublist k d).map Prod.fst).nodup h

/-- Taking an item out and putting it in front only reorders the items. -/
theorem remove_perm {k : κ} {v : α} {d : List (κ × α)} (h : lookup k d = some v) :
    d.Perm ((k, v) :: remove k d) := by
  induction d with
  | nil => exact absurd h (by simp [lookup])
  | cons kv d ih =>
      obtain ⟨k', v'⟩ := kv
      simp only [lookup] at h
      simp only [remove]
      by_cases hk : k' = k
      · rw [if_pos hk] at h ⊢
        simp only [Option.some.injEq] at h
        subst hk h
        exact List.Perm.refl _
      · rw [if_neg hk] at h ⊢
        exact ((ih h).cons (k', v')).trans (List.Perm.swap ..)

theorem remove_of_not_mem {k : κ} {d : List (κ × α)} (h : k ∉ keys d) : remove k d = d := by
  induction d with
  | nil => rfl
  | cons kv d ih =>
      simp only [keys, List.map_cons, List.mem_cons, not_or] at h
      simp [remove, Ne.symm h.1, ih h.2]

theorem remove_eq_filter {k : κ} {d : List (κ × α)} (h : (keys d).Nodup) :
    remove k d = d.filter fun kv => decide (kv.1 ≠ k) := by
  induction d with
  | nil => rfl
  | cons kv d ih =>
      obtain ⟨k', v⟩ := kv
      simp only [keys, List.map_cons, List.nodup_cons] at h
      by_cases hk : k' = k
      · subst hk
        have hall : ∀ kv ∈ d, decide (kv.1 ≠ k') = true := by
          intro kv hkv
          exact decide_eq_true fun heq => h.1 (heq ▸ List.mem_map_of_mem hkv)
        rw [remove, if_pos rfl, List.filter_cons_of_neg (by simp), List.filter_eq_self.2 hall]
      · rw [remove, if_neg hk, ih h.2, List.filter_cons_of_pos (by simp [hk])]

theorem lookup_remove_ne {k k' : κ} (hne : k' ≠ k) (d : List (κ × α)) :
    lookup k' (remove k d) = lookup k' d := by
  induction d with
  | nil => rfl
  | cons kv d ih =>
      obtain ⟨k₀, v⟩ := kv
      by_cases hk : k₀ = k
      · have hne' : ¬ k = k' := fun h => hne h.symm
        simp [remove, lookup, hk, hne']
      · simp [remove, lookup, hk, ih]

theorem lookup_remove_self {k : κ} {d : List (κ × α)} (h : (keys d).Nodup) :
    lookup k (remove k d) = none := by
  cases hv : lookup k d with
  | none => rw [remove_of_not_mem (lookup_eq_none_iff.1 hv), hv]
  | some v =>
      have hp := (remove_perm hv).map Prod.fst
      have hnd := hp.nodup_iff.1 h
      rw [List.map_cons, List.nodup_cons] at hnd
      exact lookup_eq_none_iff.2 hnd.1

theorem length_remove {k : κ} {v : α} {d : List (κ × α)} (h : lookup k d = some v) :
    (remove k d).length + 1 = d.length := by
  simpa using (remove_perm h).length_eq.symm

theorem length_assign {k : κ} {w v : α} {d : List (κ × α)} (h : lookup k d = some w) :
    (assign k v d).length = d.length := by
  have hk : k ∈ keys d := by
    by_contra hk
    rw [lookup_eq_none_iff.2 hk] at h
    exact absurd h (by simp)
  have := congrArg List.length (keys_assign k v d)
  rw [if_pos hk] at this
  simpa using this

theorem remove_assign {k : κ} (v : α) {d : List (κ × α)} (hk : k ∈ keys d) :
    remove k (assign k v d) = remove k d := by
  induction d with
  | nil => exact absurd hk (by simp)
  | cons kv d ih =>
      by_cases h₀ : kv.1 = k
      · simp [assign, remove, h₀]
      · have hk' : k ∈ keys d := by
          rcases List.mem_cons.1 hk with hk | hk
          · exact absurd hk.symm h₀
          · exact hk
        simp [assign, remove, h₀, ih hk']

/-! ## Dictionaries with their invariant -/

/-- A dictionary: items in insertion order, keys distinct. -/
structure Dict (κ α : Type) [DecidableEq κ] where
  items : List (κ × α)
  nodup : (keys items).Nodup

namespace Dict

def empty : Dict κ α := ⟨[], List.nodup_nil⟩

def get? (d : Dict κ α) (k : κ) : Option α := lookup k d.items

def set (d : Dict κ α) (k : κ) (v : α) : Dict κ α := ⟨assign k v d.items, assign_nodup d.nodup⟩

def pop (d : Dict κ α) (k : κ) : Dict κ α := ⟨remove k d.items, remove_nodup d.nodup⟩

/-- `len(d)`. -/
def size (d : Dict κ α) : Nat := d.items.length

/-- `d.values()`. -/
def values (d : Dict κ α) : List α := d.items.map Prod.snd

theorem mem_items {d : Dict κ α} {k : κ} {v : α} : (k, v) ∈ d.items ↔ d.get? k = some v :=
  (lookup_eq_some_iff d.nodup).symm

@[simp] theorem get?_empty (k : κ) : (empty : Dict κ α).get? k = none := rfl

theorem get?_set (d : Dict κ α) (k k' : κ) (v : α) :
    (d.set k v).get? k' = if k' = k then some v else d.get? k' := lookup_assign k k' v d.items

@[simp] theorem get?_set_self (d : Dict κ α) (k : κ) (v : α) : (d.set k v).get? k = some v := by
  simp [get?_set]

theorem get?_set_ne (d : Dict κ α) {k k' : κ} (h : k' ≠ k) (v : α) :
    (d.set k v).get? k' = d.get? k' := by
  simp [get?_set, h]

theorem set_set (d : Dict κ α) (k : κ) (v w : α) : (d.set k v).set k w = d.set k w := by
  simp only [set, assign_assign]

@[simp] theorem get?_pop_self (d : Dict κ α) (k : κ) : (d.pop k).get? k = none :=
  lookup_remove_self d.nodup

theorem get?_pop_ne (d : Dict κ α) {k k' : κ} (h : k' ≠ k) : (d.pop k).get? k' = d.get? k' :=
  lookup_remove_ne h d.items

/-- Whatever `pop` leaves was there before. -/
theorem get?_of_pop {d : Dict κ α} {k k' : κ} {v : α} (h : (d.pop k).get? k' = some v) :
    k' ≠ k ∧ d.get? k' = some v := by
  by_cases hk : k' = k
  · subst hk
    simp at h
  · exact ⟨hk, by rwa [get?_pop_ne d hk] at h⟩

theorem size_set {d : Dict κ α} {k : κ} {w : α} (v : α) (h : d.get? k = some w) :
    (d.set k v).size = d.size := length_assign h

theorem size_set_new {d : Dict κ α} {k : κ} (v : α) (h : d.get? k = none) :
    (d.set k v).size = d.size + 1 := by
  simp only [size, set, assign_of_not_mem (lookup_eq_none_iff.1 h), List.length_append,
    List.length_singleton]

theorem size_pop {d : Dict κ α} {k : κ} {w : α} (h : d.get? k = some w) :
    (d.pop k).size + 1 = d.size := length_remove h

theorem pop_perm {d : Dict κ α} {k : κ} {w : α} (h : d.get? k = some w) :
    d.items.Perm ((k, w) :: (d.pop k).items) := remove_perm h

theorem pop_items (d : Dict κ α) (k : κ) :
    (d.pop k).items = d.items.filter fun kv => decide (kv.1 ≠ k) := remove_eq_filter d.nodup

theorem set_items_new {d : Dict κ α} {k : κ} {v : α} (h : d.get? k = none) :
    (d.set k v).items = d.items ++ [(k, v)] := assign_of_not_mem (lookup_eq_none_iff.1 h)

theorem pop_of_none {d : Dict κ α} {k : κ} (h : d.get? k = none) : (d.pop k).items = d.items :=
  remove_of_not_mem (lookup_eq_none_iff.1 h)

/-- Overwriting a key only exchanges its item. -/
theorem set_perm {d : Dict κ α} {k : κ} {w : α} (v : α) (h : d.get? k = some w) :
    (d.set k v).items.Perm ((k, v) :: (d.pop k).items) := by
  have hself : lookup k (assign k v d.items) = some v := by simp [lookup_assign]
  have hmem : k ∈ keys d.items := by
    by_contra hk
    exact absurd (h.symm.trans (lookup_eq_none_iff.2 hk)) (by simp)
  have hp := remove_perm hself
  rwa [remove_assign v hmem] at hp

end Dict

end Elyra.Python
