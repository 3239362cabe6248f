import Mathlib.Data.Finset.Dedup
import Elyra.Python.Dict

set_option autoImplicit false

/-! # Ordered dictionaries

The operations of an `OrderedDict` that use its order: `move_to_end`, and taking items off the front
with `popitem(last=False)`. -/

namespace Elyra.Python.Dict

variable {κ α : Type} [DecidableEq κ] {d : Dict κ α} {k k' : κ} {v : α}

/-- `d[k] = v` and `d.move_to_end(k)`. -/
def setLast (d : Dict κ α) (k : κ) (v : α) : Dict κ α := (d.pop k).set k v

/-- `popitem(last=False)` as long as the first item meets the test. -/
def popWhile (d : Dict κ α) (p : κ × α → Bool) : Dict κ α :=
  ⟨d.items.dropWhile p, ((List.dropWhile_sublist p).map Prod.fst).nodup d.nodup⟩

/-- `popitem(last=False)` as long as there are more than `n` items. -/
def trim (d : Dict κ α) (n : Nat) : Dict κ α :=
  ⟨d.items.drop (d.size - n), ((List.drop_sublist (d.size - n) d.items).map Prod.fst).nodup d.nodup⟩

theorem card_keys_le (d : Dict κ α) : (keys d.items).toFinset.card ≤ d.size := by
  refine (List.toFinset_card_le _).trans ?_
  rw [keys, List.length_map]
  rfl

theorem items_setLast (d : Dict κ α) (k : κ) (v : α) :
    (d.setLast k v).items = (d.pop k).items ++ [(k, v)] := by
  have hk : k ∉ keys (d.pop k).items := lookup_eq_none_iff.1 (get?_pop_self d k)
  exact assign_of_not_mem hk

theorem get?_setLast (d : Dict κ α) (k k' : κ) (v : α) :
    (d.setLast k v).get? k' = if k' = k then some v else d.get? k' := by
  rw [setLast, get?_set]
  split
  · rfl
  · next hne => rw [get?_pop_ne d hne]

/-- What is left at the end was there before. -/
theorem get?_of_popWhile {p : κ × α → Bool} (h : (d.popWhile p).get? k = some v) :
    d.get? k = some v :=
  mem_items.1 ((List.dropWhile_sublist p).subset (mem_items.2 h))

/-- An item goes only if the test holds of it. -/
theorem get?_popWhile {p : κ × α → Bool} (h : d.get? k = some v) (hp : p (k, v) = false) :
    (d.popWhile p).get? k = some v := by
  refine mem_items.1 ?_
  have hmem := mem_items.2 h
  rw [← List.takeWhile_append_dropWhile (p := p) (l := d.items)] at hmem
  rcases List.mem_append.1 hmem with hmem | hmem
  · rw [List.all_eq_true.1 List.all_takeWhile _ hmem] at hp
    cases hp
  · exact hmem

theorem trim_of_le {n : Nat} (h : d.size ≤ n) : d.trim n = d := by
  rw [trim]
  congr 1
  rw [Nat.sub_eq_zero_of_le h, List.drop_zero]

end Elyra.Python.Dict
