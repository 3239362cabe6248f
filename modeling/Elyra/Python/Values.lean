import Elyra.Python.Builtins
import Elyra.Python.JsonLimits
import Elyra.Python.Raising

set_option autoImplicit false

/-! # Python values

The values a caller hands over before anything has made JSON of them: the JSON types, bytes, paths,
dataclass instances, dictionaries with keys of any type, tuples and sets. `asdict` is the conversion
of the standard library. A set is a list in the order in which it is iterated. -/

namespace Elyra.Python

variable {F : Type}

/-! ## Values -/

/-- A key of a dictionary, by its `str`. Told apart are an integer; a tuple or a frozenset, with the
    integers in it; and a dataclass instance or a tuple that holds one, of which `asdict` makes a
    dictionary, which cannot be a key. -/
inductive Key where
  | text (s : PyStr)
  | int (n : Int)
  | tuple (numbers : List Int) (s : PyStr)
  | dataclass (numbers : List Int) (s : PyStr)
  deriving DecidableEq, Repr

/-- The digits that `str` writes for an integer are within the limit. -/
def printable (n : Int) : Bool := decide ((natText n.natAbs).length ≤ maxStrDigits)

/-- The text of a key that has one. -/
def Key.name : Key → PyStr
  | .text s => s
  | .int n => intText n
  | .tuple _ s => s
  | .dataclass _ s => s

/-- Does `str(key)` return? It raises beyond the digit limit, also for an integer in the key. -/
def Key.hasName : Key → Bool
  | .text _ => true
  | .int n => printable n
  | .tuple numbers _ => numbers.all printable
  | .dataclass numbers _ => numbers.all printable

/-- `str(key)`. -/
def Key.str (k : Key) : Except PyExc PyStr :=
  if k.hasName then .ok k.name else .error .valueError

inductive PyValue (F : Type) where
  | none
  | bool (b : Bool)
  | int (n : Int)
  | float (f : F)
  | str (s : PyStr)
  | bytes (data : Bytes)
  | path (s : PyStr)
  | dataclass (fields : List (PyStr × PyValue F))
  | dict (items : List (Key × PyValue F))
  | list (xs : List (PyValue F))
  | tuple (xs : List (PyValue F))
  | set (xs : List (PyValue F))

/-- Induction over a value: a container from its elements. -/
theorem PyValue.inductOn {P : PyValue F → Prop} (none : P .none) (bool : ∀ b, P (.bool b))
    (int : ∀ n, P (.int n)) (float : ∀ f, P (.float f)) (str : ∀ s, P (.str s))
    (bytes : ∀ data, P (.bytes data)) (path : ∀ s, P (.path s))
    (dataclass : ∀ fields, (∀ kv ∈ fields, P kv.2) → P (.dataclass fields))
    (dict : ∀ items, (∀ kv ∈ items, P kv.2) → P (.dict items))
    (list : ∀ xs, (∀ x ∈ xs, P x) → P (.list xs)) (tuple : ∀ xs, (∀ x ∈ xs, P x) → P (.tuple xs))
    (set : ∀ xs, (∀ x ∈ xs, P x) → P (.set xs)) (v : PyValue F) : P v := by
  refine @PyValue.rec F P (fun fields => ∀ kv ∈ fields, P kv.2) (fun items => ∀ kv ∈ items, P kv.2)
    (fun xs => ∀ x ∈ xs, P x) (fun kv => P kv.2) (fun kv => P kv.2) none bool int float str bytes
    path dataclass dict list tuple set (List.forall_mem_nil _) ?_ (List.forall_mem_nil _) ?_
    (List.forall_mem_nil _) ?_ (fun _ _ hv => hv) (fun _ _ hv => hv) v
  all_goals exact fun x xs hx hxs => List.forall_mem_cons.2 ⟨hx, hxs⟩

/-! ## The dictionary of a dataclass -/

mutual

/-- Does `asdict` come through? It copies dictionaries, keys included. -/
def PyValue.copies : PyValue F → Bool
  | .dataclass fields => copiesFields fields
  | .dict items => copiesItems items
  | .list xs => copiesList xs
  | .tuple xs => copiesList xs
  | _ => true

def copiesFields : List (PyStr × PyValue F) → Bool
  | [] => true
  | (_, v) :: fields => v.copies && copiesFields fields

def copiesItems : List (Key × PyValue F) → Bool
  | [] => true
  | (.dataclass _ _, _) :: _ => false
  | (_, v) :: items => v.copies && copiesItems items

def copiesList : List (PyValue F) → Bool
  | [] => true
  | x :: xs => x.copies && copiesList xs

end

attribute [grind =] PyValue.copies copiesFields copiesItems copiesList

mutual

/-- `_asdict_inner`, where no key is turned into a dictionary. What is no dataclass, dictionary, list
    or tuple is deep-copied. -/
def PyValue.asdictInner : PyValue F → PyValue F
  | .dataclass fields => .dict (asdictFields fields)
  | .dict items => .dict (asdictItems items)
  | .list xs => .list (asdictList xs)
  | .tuple xs => .tuple (asdictList xs)
  | v => v

def asdictFields : List (PyStr × PyValue F) → List (Key × PyValue F)
  | [] => []
  | (name, v) :: fields => (.text name, v.asdictInner) :: asdictFields fields

def asdictItems : List (Key × PyValue F) → List (Key × PyValue F)
  | [] => []
  | (k, v) :: items => (k, v.asdictInner) :: asdictItems items

def asdictList : List (PyValue F) → List (PyValue F)
  | [] => []
  | x :: xs => x.asdictInner :: asdictList xs

end

attribute [grind =] PyValue.asdictInner asdictFields asdictItems asdictList

/-- `dataclasses.asdict`: `TypeError` for a dictionary that cannot be a key. -/
def asdict (v : PyValue F) : Except PyExc (PyValue F) :=
  if v.copies then .ok v.asdictInner else .error .typeError

theorem copiesFields_iff {fields : List (PyStr × PyValue F)} :
    copiesFields fields = true ↔ ∀ kv ∈ fields, kv.2.copies = true := by
  induction fields with
  | nil => simp [copiesFields]
  | cons kv fields ih => simp [copiesFields, ih]

theorem copiesItems_values {items : List (Key × PyValue F)} (h : copiesItems items = true) :
    ∀ kv ∈ items, kv.2.copies = true := by
  induction items with
  | nil => exact List.forall_mem_nil _
  | cons kv items ih =>
      obtain ⟨k, v⟩ := kv
      cases k with
      | dataclass numbers s => exact absurd h (by simp [copiesItems])
      | text s | int n | tuple numbers s =>
          simp only [copiesItems, Bool.and_eq_true] at h
          exact List.forall_mem_cons.2 ⟨h.1, ih h.2⟩

theorem copiesList_iff {xs : List (PyValue F)} :
    copiesList xs = true ↔ ∀ x ∈ xs, x.copies = true := by
  induction xs with
  | nil => simp [copiesList]
  | cons x xs ih => simp [copiesList, ih]

theorem asdictFields_eq (fields : List (PyStr × PyValue F)) :
    asdictFields fields = fields.map fun kv => (.text kv.1, kv.2.asdictInner) := by
  induction fields with
  | nil => rfl
  | cons kv fields ih => simp only [asdictFields, ih, List.map_cons]

theorem asdictItems_eq (items : List (Key × PyValue F)) :
    asdictItems items = items.map fun kv => (kv.1, kv.2.asdictInner) := by
  induction items with
  | nil => rfl
  | cons kv items ih => simp only [asdictItems, ih, List.map_cons]

theorem asdictList_eq (xs : List (PyValue F)) : asdictList xs = xs.map PyValue.asdictInner := by
  induction xs with
  | nil => rfl
  | cons x xs ih => simp only [asdictList, ih, List.map_cons]

/-! ## JSON values among them -/

mutual

/-- A JSON value as the value it is read as. -/
def PyValue.ofJson : Json F → PyValue F
  | .null => .none
  | .bool b => .bool b
  | .int n => .int n
  | .float f => .float f
  | .str s => .str s
  | .arr xs => .list (ofJsonList xs)
  | .obj kvs => .dict (ofJsonMembers kvs)

def ofJsonList : List (Json F) → List (PyValue F)
  | [] => []
  | x :: xs => .ofJson x :: ofJsonList xs

def ofJsonMembers : List (PyStr × Json F) → List (Key × PyValue F)
  | [] => []
  | (k, v) :: kvs => (.text k, .ofJson v) :: ofJsonMembers kvs

end

attribute [grind =] PyValue.ofJson ofJsonList ofJsonMembers

theorem ofJsonList_eq (xs : List (Json F)) : ofJsonList xs = xs.map PyValue.ofJson := by
  induction xs with
  | nil => rfl
  | cons x xs ih => simp only [ofJsonList, ih, List.map_cons]

theorem ofJsonMembers_eq (kvs : List (PyStr × Json F)) :
    ofJsonMembers kvs = kvs.map fun kv => (.text kv.1, .ofJson kv.2) := by
  induction kvs with
  | nil => rfl
  | cons kv kvs ih => simp only [ofJsonMembers, ih, List.map_cons]

/-! ## What a value holds -/

/-- A text or an integer somewhere in a value. -/
inductive Atom where
  | text (s : PyStr)
  | number (n : Int)
  deriving DecidableEq, Repr

/-- It can be written: a text without a lone surrogate, an integer within the digit limit. -/
def Atom.Fits : Atom → Prop
  | .text s => Utf8 s
  | .number n => printable n = true

instance : (a : Atom) → Decidable a.Fits
  | .text s => inferInstanceAs (Decidable (Utf8 s))
  | .number n => inferInstanceAs (Decidable (printable n = true))

/-- It is no integer beyond the limit. -/
def Atom.short : Atom → Bool
  | .text _ => true
  | .number n => printable n

/-- The atoms of a dictionary, given those of its values. -/
def atomsOf (kvs : List (PyStr × List Atom)) : List Atom :=
  (dictOf kvs).flatMap fun kv => .text kv.1 :: kv.2

mutual

/-- The texts and integers of a value, once keys with one `str` have become one. -/
def PyValue.atoms : PyValue F → List Atom
  | .int n => [.number n]
  | .str s => [.text s]
  | .path s => [.text s]
  | .dataclass fields => atomsOf (atomsFields fields)
  | .dict items => atomsOf (atomsItems items)
  | .list xs => atomsList xs
  | .tuple xs => atomsList xs
  | .set xs => atomsList xs
  | _ => []

def atomsFields : List (PyStr × PyValue F) → List (PyStr × List Atom)
  | [] => []
  | (name, v) :: fields => (name, v.atoms) :: atomsFields fields

def atomsItems : List (Key × PyValue F) → List (PyStr × List Atom)
  | [] => []
  | (k, v) :: items => (k.name, v.atoms) :: atomsItems items

def atomsList : List (PyValue F) → List Atom
  | [] => []
  | x :: xs => x.atoms ++ atomsList xs

end

attribute [grind =] PyValue.atoms atomsFields atomsItems atomsList

theorem atomsFields_eq (fields : List (PyStr × PyValue F)) :
    atomsFields fields = fields.map fun kv => (kv.1, kv.2.atoms) := by
  induction fields with
  | nil => rfl
  | cons kv fields ih => simp only [atomsFields, ih, List.map_cons]

theorem atomsItems_eq (items : List (Key × PyValue F)) :
    atomsItems items = items.map fun kv => (kv.1.name, kv.2.atoms) := by
  induction items with
  | nil => rfl
  | cons kv items ih => simp only [atomsItems, ih, List.map_cons]

theorem atomsList_eq (xs : List (PyValue F)) : atomsList xs = xs.flatMap PyValue.atoms := by
  induction xs with
  | nil => rfl
  | cons x xs ih => simp only [atomsList, ih, List.flatMap_cons]

end Elyra.Python
