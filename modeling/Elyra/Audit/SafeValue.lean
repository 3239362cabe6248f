import Mathlib.Data.List.Sort
import Elyra.Audit.Record
import Elyra.Python.Values

set_option autoImplicit false

/-! # The sanitiser

`_safe_value` on the values a caller passes. It makes a JSON value of each (`safeOf`): bytes become
their hexadecimal text, paths their text, dataclass instances and dictionaries objects, sets the list
of their elements in the order of their `repr`, non-finite floats their text. What `repr` writes
depends on the Unicode tables and is a parameter. It raises for the keys and for the integers that it
has to write out, and for nothing else (`safeOf_ok_iff`); what it makes has no repeated key and no
non-finite float, so it is left alone the second time (`safeOf_idempotent`), and can be written when
every text and every integer in the argument can (`safeOf_fits`). -/

namespace Elyra.Audit

open Elyra.Python

variable {F : Type} [FloatNum F] (repr : Json F → PyStr)

/-! ## `_safe_value` -/

/-- `data.hex()`. -/
def hexText (data : Bytes) : PyStr :=
  data.flatMap fun b => [hexDigit (b.toNat / 16), hexDigit (b.toNat % 16)]

/-- `sorted(xs, key=repr)`; `repr` writes out every integer. -/
def sortedByRepr (xs : List (Json F)) : Except PyExc (List (Json F)) :=
  if encodableList true xs then .ok (xs.insertionSort fun x y => keyLe (repr x) (repr y) = true)
  else .error .valueError

mutual

/-- `_safe_value`. For a dataclass instance it is `_safe_value(asdict(value))`, which is done here on
    the fields themselves (`safeOf_dataclass`). -/
def safeOf : PyValue F → Except PyExc (Json F)
  | .none => .ok .null
  | .bool b => .ok (.bool b)
  | .int n => .ok (.int n)
  | .str s => .ok (.str s)
  | .float f => .ok (if PyFloat.finite f then .float f else .str (pyStr (.float f)))
  | .bytes data => .ok (.obj [(py "type", .str (py "bytes")), (py "hex", .str (hexText data))])
  | .path s => .ok (.str s)
  | .dataclass fields =>
      if copiesFields fields then (safeFields fields).map fun kvs => .obj (dictOf kvs)
      else .error .typeError
  | .dict items => (safeItemsOf items).map fun kvs => .obj (dictOf kvs)
  | .list xs => (safeList xs).map .arr
  | .tuple xs => (safeList xs).map .arr
  | .set xs => (safeList xs >>= sortedByRepr repr).map .arr

def safeFields : List (PyStr × PyValue F) → Except PyExc (List (PyStr × Json F))
  | [] => .ok []
  | (name, v) :: fields => do
      let j ← safeOf v
      let kvs ← safeFields fields
      .ok ((name, j) :: kvs)

/-- The members of `{str(key): _safe_value(item) for key, item in value.items()}`, before equal keys
    are merged. -/
def safeItemsOf : List (Key × PyValue F) → Except PyExc (List (PyStr × Json F))
  | [] => .ok []
  | (k, v) :: items => do
      let key ← k.str
      let j ← safeOf v
      let kvs ← safeItemsOf items
      .ok ((key, j) :: kvs)

def safeList : List (PyValue F) → Except PyExc (List (Json F))
  | [] => .ok []
  | x :: xs => do
      let j ← safeOf x
      let js ← safeList xs
      .ok (j :: js)

end

attribute [grind =] safeOf safeFields safeItemsOf safeList

mutual

/-- Does `_safe_value` return? Every key has a `str`, a dataclass can be copied, and the integers in
    a set can be written. -/
def converts : PyValue F → Bool
  | .dataclass fields => copiesFields fields && convertsFields fields
  | .dict items => convertsItems items
  | .list xs => convertsList xs
  | .tuple xs => convertsList xs
  | .set xs => convertsList xs && (atomsList xs).all Atom.short
  | _ => true

def convertsFields : List (PyStr × PyValue F) → Bool
  | [] => true
  | (_, v) :: fields => converts v && convertsFields fields

def convertsItems : List (Key × PyValue F) → Bool
  | [] => true
  | (k, v) :: items => k.hasName && converts v && convertsItems items

def convertsList : List (PyValue F) → Bool
  | [] => true
  | x :: xs => converts x && convertsList xs

end

attribute [grind =] converts convertsFields convertsItems convertsList

/-! ## Member by member -/

section Members

variable {repr}

theorem safeList_ok {xs : List (PyValue F)} {js : List (Json F)} :
    safeList repr xs = .ok js ↔ List.Forall₂ (fun x j => safeOf repr x = .ok j) xs js := by
  induction xs generalizing js with
  | nil =>
      rw [List.forall₂_nil_left_iff]
      exact ⟨fun h => (Except.ok.inj h).symm, fun h => congrArg _ h.symm⟩
  | cons x xs ih =>
      rw [safeList, List.forall₂_cons_left_iff]
      constructor
      · intro h
        obtain ⟨j, hj, h⟩ := bind_ok.1 h
        obtain ⟨rest, hrest, h⟩ := bind_ok.1 h
        exact ⟨j, rest, hj, ih.1 hrest, (Except.ok.inj h).symm⟩
      · rintro ⟨j, rest, hj, hrest, rfl⟩
        exact bind_ok.2 ⟨j, hj, bind_ok.2 ⟨rest, ih.2 hrest, rfl⟩⟩

theorem safeFields_ok {fields : List (PyStr × PyValue F)} {kvs : List (PyStr × Json F)} :
    safeFields repr fields = .ok kvs ↔
      List.Forall₂ (fun field kv => field.1 = kv.1 ∧ safeOf repr field.2 = .ok kv.2) fields kvs := by
  induction fields generalizing kvs with
  | nil =>
      rw [List.forall₂_nil_left_iff]
      exact ⟨fun h => (Except.ok.inj h).symm, fun h => congrArg _ h.symm⟩
  | cons field fields ih =>
      rw [safeFields, List.forall₂_cons_left_iff]
      constructor
      · intro h
        obtain ⟨j, hj, h⟩ := bind_ok.1 h
        obtain ⟨rest, hrest, h⟩ := bind_ok.1 h
        exact ⟨(field.1, j), rest, ⟨rfl, hj⟩, ih.1 hrest, (Except.ok.inj h).symm⟩
      · rintro ⟨⟨name, j⟩, rest, ⟨rfl, hj⟩, hrest, rfl⟩
        exact bind_ok.2 ⟨j, hj, bind_ok.2 ⟨rest, ih.2 hrest, rfl⟩⟩

theorem str_ok {k : Key} {s : PyStr} : k.str = .ok s ↔ k.hasName = true ∧ k.name = s := by
  unfold Key.str
  split
  · next h => exact ⟨fun h' => ⟨h, Except.ok.inj h'⟩, fun h' => congrArg _ h'.2⟩
  · next h => exact ⟨nofun, fun h' => absurd h'.1 h⟩

theorem safeItemsOf_ok {items : List (Key × PyValue F)} {kvs : List (PyStr × Json F)} :
    safeItemsOf repr items = .ok kvs ↔
      List.Forall₂ (fun item kv => item.1.str = .ok kv.1 ∧ safeOf repr item.2 = .ok kv.2)
        items kvs := by
  induction items generalizing kvs with
  | nil =>
      rw [List.forall₂_nil_left_iff]
      exact ⟨fun h => (Except.ok.inj h).symm, fun h => congrArg _ h.symm⟩
  | cons item items ih =>
      rw [safeItemsOf, List.forall₂_cons_left_iff]
      constructor
      · intro h
        obtain ⟨key, hkey, h⟩ := bind_ok.1 h
        obtain ⟨j, hj, h⟩ := bind_ok.1 h
        obtain ⟨rest, hrest, h⟩ := bind_ok.1 h
        exact ⟨(key, j), rest, ⟨hkey, hj⟩, ih.1 hrest, (Except.ok.inj h).symm⟩
      · rintro ⟨⟨key, j⟩, rest, ⟨hkey, hj⟩, hrest, rfl⟩
        exact bind_ok.2 ⟨key, hkey, bind_ok.2 ⟨j, hj, bind_ok.2 ⟨rest, ih.2 hrest, rfl⟩⟩⟩

/-! ## A property of the atoms -/

/-- A property `Q` of JSON values that holds when `p` holds of every text and every integer. -/
structure ByAtoms (Q : Json F → Prop) (p : Atom → Prop) : Prop where
  null : Q .null
  bool : ∀ b, Q (.bool b)
  float : ∀ f, PyFloat.finite f = true → Q (.float f)
  int : ∀ n, Q (.int n) ↔ p (.number n)
  str : ∀ s, Q (.str s) ↔ p (.text s)
  ascii : ∀ s : PyStr, (∀ c ∈ s, c < 128) → p (.text s)
  arr : ∀ xs, Q (.arr xs) ↔ ∀ x ∈ xs, Q x
  obj : ∀ kvs, (keys kvs).Nodup → (Q (.obj kvs) ↔ ∀ kv ∈ kvs, p (.text kv.1) ∧ Q kv.2)

theorem hexText_ascii (data : Bytes) : ∀ c ∈ hexText data, c < 128 := by
  intro c hc
  obtain ⟨b, -, hb⟩ := List.mem_flatMap.1 hc
  have hlt := b.toNat_lt
  simp only [List.mem_cons, List.not_mem_nil, or_false] at hb
  unfold hexDigit at hb
  rcases hb with rfl | rfl <;> split <;> omega

theorem special_ascii {f : F} (h : PyFloat.finite f = false) : ∀ c ∈ floatStr f, c < 128 := by
  unfold floatStr
  rw [if_neg (by simp [h])]
  split
  · decide
  · split <;> decide

theorem forall₂_iff {α β : Type} {P : α → Prop} {Q : β → Prop} {xs : List α} {ys : List β}
    (h : List.Forall₂ (fun x y => Q y ↔ P x) xs ys) : (∀ y ∈ ys, Q y) ↔ ∀ x ∈ xs, P x := by
  induction h with
  | nil => exact ⟨fun _ => List.forall_mem_nil _, fun _ => List.forall_mem_nil _⟩
  | cons hxy _ ih => rw [List.forall_mem_cons, List.forall_mem_cons, hxy, ih]

variable {Q : Json F → Prop} {p : Atom → Prop}

/-- The elements of a list. -/
theorem ByAtoms.items (hQ : ByAtoms Q p) {xs : List (PyValue F)} {js : List (Json F)}
    (h : List.Forall₂ (fun x j => safeOf repr x = .ok j) xs js)
    (ih : ∀ x ∈ xs, ∀ j, safeOf repr x = .ok j → (Q j ↔ ∀ a ∈ x.atoms, p a)) :
    Q (.arr js) ↔ ∀ a ∈ atomsList xs, p a := by
  have hitems : List.Forall₂ (fun x j => Q j ↔ ∀ a ∈ x.atoms, p a) xs js :=
    ((List.forall₂_and_left ..).2 ⟨ih, h⟩).imp fun _ _ ⟨hx, hj⟩ => hx _ hj
  rw [hQ.arr, forall₂_iff hitems, atomsList_eq]
  simp only [List.mem_flatMap, forall_exists_index, and_imp]
  exact ⟨fun h a x hx ha => h x hx a ha, fun h x hx a ha => h a x hx ha⟩

/-- The members of an object. -/
theorem ByAtoms.members (hQ : ByAtoms Q p) {kas : List (PyStr × List Atom)}
    {kvs : List (PyStr × Json F)} (h : SameKeys (fun as j => Q j ↔ ∀ a ∈ as, p a) kas kvs) :
    Q (.obj (dictOf kvs)) ↔ ∀ a ∈ atomsOf kas, p a := by
  have hmembers : List.Forall₂ (fun ka kv => (p (.text kv.1) ∧ Q kv.2) ↔
      ∀ a ∈ Atom.text ka.1 :: ka.2, p a) (dictOf kas) (dictOf kvs) :=
    h.dictOf.imp fun ka kv ⟨hkey, hv⟩ => by
      rw [List.forall_mem_cons, hkey]
      exact and_congr_right' hv
  rw [hQ.obj _ (dictOf_spec kvs).1, forall₂_iff hmembers]
  simp only [atomsOf, List.mem_flatMap, forall_exists_index, and_imp]
  exact ⟨fun h a x hx ha => h x hx a ha, fun h x hx a ha => h a x hx ha⟩

/-- **A property of the texts and integers alone holds of the sanitised value when it holds of those in
    the argument.** -/
theorem safeOf_atoms (hQ : ByAtoms Q p) (v : PyValue F) :
    ∀ j, safeOf repr v = .ok j → (Q j ↔ ∀ a ∈ v.atoms, p a) := by
  induction v using PyValue.inductOn with
  | none =>
      rintro _ ⟨⟩
      exact iff_of_true hQ.null (List.forall_mem_nil _)
  | bool b =>
      rintro _ ⟨⟩
      exact iff_of_true (hQ.bool b) (List.forall_mem_nil _)
  | int n =>
      rintro _ ⟨⟩
      rw [hQ.int, PyValue.atoms, List.forall_mem_singleton]
  | str s | path s =>
      rintro _ ⟨⟩
      rw [hQ.str, PyValue.atoms, List.forall_mem_singleton]
  | float f =>
      rintro _ ⟨⟩
      refine iff_of_true ?_ (List.forall_mem_nil _)
      by_cases hf : PyFloat.finite f = true
      · rw [if_pos hf]
        exact hQ.float f hf
      · rw [if_neg hf, hQ.str]
        exact hQ.ascii _ (special_ascii (Bool.not_eq_true _ ▸ hf))
  | bytes data =>
      rintro _ ⟨⟩
      refine iff_of_true ((hQ.obj _ ?_).2 ?_) (List.forall_mem_nil _)
      · show ([py "type", py "hex"] : List PyStr).Nodup
        decide
      · simp only [List.forall_mem_cons, hQ.str]
        exact ⟨⟨hQ.ascii _ (by decide), hQ.ascii _ (by decide)⟩,
          ⟨hQ.ascii _ (by decide), hQ.ascii _ (hexText_ascii data)⟩, List.forall_mem_nil _⟩
  | dataclass fields ih =>
      intro j h
      rw [safeOf] at h
      split at h
      · obtain ⟨kvs, hkvs, rfl⟩ := map_eq_ok h
        rw [PyValue.atoms, atomsFields_eq]
        refine hQ.members (List.forall₂_map_left_iff.2 ?_)
        exact ((List.forall₂_and_left ..).2 ⟨ih, safeFields_ok.1 hkvs⟩).imp
          fun _ _ ⟨hv, hkey, hj⟩ => ⟨hkey, hv _ hj⟩
      · cases h
  | dict items ih =>
      intro j h
      obtain ⟨kvs, hkvs, rfl⟩ := map_eq_ok h
      rw [PyValue.atoms, atomsItems_eq]
      refine hQ.members (List.forall₂_map_left_iff.2 ?_)
      exact ((List.forall₂_and_left ..).2 ⟨ih, safeItemsOf_ok.1 hkvs⟩).imp
        fun _ _ ⟨hv, hkey, hj⟩ => ⟨(str_ok.1 hkey).2, hv _ hj⟩
  | list xs ih | tuple xs ih =>
      intro j h
      obtain ⟨js, hjs, rfl⟩ := map_eq_ok h
      exact hQ.items (safeList_ok.1 hjs) ih
  | set xs ih =>
      intro j h
      obtain ⟨sorted, hsorted, rfl⟩ := map_eq_ok h
      obtain ⟨js, hjs, hsort⟩ := bind_ok.1 hsorted
      have hitems := hQ.items (safeList_ok.1 hjs) ih
      unfold sortedByRepr at hsort
      split at hsort
      · obtain rfl := Except.ok.inj hsort
        rw [PyValue.atoms, ← hitems, hQ.arr, hQ.arr]
        exact forall_congr' fun x => imp_congr_left (List.mem_insertionSort _)
      · cases hsort

/-! ## What it makes -/

theorem byAtoms_short : ByAtoms (F := F) (fun j => j.encodable true = true) (·.short = true) where
  null := rfl
  bool _ := rfl
  float _ _ := by simp [Json.encodable]
  int _ := Iff.rfl
  str _ := iff_of_true rfl rfl
  ascii _ _ := rfl
  arr _ := encodableList_iff
  obj kvs _ := by simp [Json.encodable, encodableMembers_iff, Atom.short]

theorem byAtoms_finite :
    ByAtoms (F := F) (fun j => ∀ f ∈ j.floats, PyFloat.finite f = true) (fun _ => True) where
  null := List.forall_mem_nil _
  bool _ := List.forall_mem_nil _
  float _ h := List.forall_mem_singleton.2 h
  int _ := iff_of_true (List.forall_mem_nil _) trivial
  str _ := iff_of_true (List.forall_mem_nil _) trivial
  ascii _ _ := trivial
  arr xs := by
    simp only [Json.floats, floatsList_eq, List.mem_flatMap, forall_exists_index, and_imp]
    exact ⟨fun h x hx f hf => h f x hx hf, fun h f x hx hf => h x hx f hf⟩
  obj kvs _ := by
    simp only [Json.floats, floatsMembers_eq, List.mem_flatMap, forall_exists_index, and_imp,
      true_and]
    exact ⟨fun h x hx f hf => h f x hx hf, fun h f x hx hf => h x hx f hf⟩

theorem ascii_utf8 {s : PyStr} (h : ∀ c ∈ s, c < 128) : Utf8 s := by
  intro c hc
  simp [utf8Char, h c hc]

theorem fits_members {kvs : List (PyStr × Json F)} :
    (Json.obj kvs).Utf8 ∧ (Json.obj kvs).encodable true = true ↔
      ∀ kv ∈ kvs, Utf8 kv.1 ∧ kv.2.Utf8 ∧ kv.2.encodable true = true := by
  simp only [Json.Utf8, Json.strings, stringsMembers_eq, List.mem_flatMap, Json.encodable,
    encodableMembers_iff, forall_exists_index, and_imp, List.mem_cons]
  exact ⟨fun h kv hkv => ⟨h.1 _ kv hkv (.inl rfl), fun s hs => h.1 s kv hkv (.inr hs), h.2 kv hkv⟩,
    fun h => ⟨fun s kv hkv hs => hs.elim (· ▸ (h kv hkv).1) ((h kv hkv).2.1 s),
      fun kv hkv => (h kv hkv).2.2⟩⟩

theorem byAtoms_fits :
    ByAtoms (F := F) (fun j => j.Utf8 ∧ j.encodable true = true) Atom.Fits where
  null := ⟨utf8_null, rfl⟩
  bool b := ⟨utf8_bool b, rfl⟩
  float f _ := ⟨utf8_float f, by simp [Json.encodable]⟩
  int n := and_iff_right (utf8_int n)
  str s := by simp [Json.encodable, Atom.Fits]
  ascii _ h := ascii_utf8 h
  arr xs := by
    simp only [Json.Utf8, Json.strings, stringsList_eq, List.mem_flatMap, Json.encodable,
      encodableList_iff, forall_exists_index, and_imp]
    exact ⟨fun h x hx => ⟨fun s hs => h.1 s x hx hs, h.2 x hx⟩,
      fun h => ⟨fun s x hx hs => (h x hx).1 s hs, fun x hx => (h x hx).2⟩⟩
  obj _ _ := fits_members

/-- **The sanitised value can be written when every text and every integer can.** -/
theorem safeOf_fits {v : PyValue F} {j : Json F} (h : safeOf repr v = .ok j) :
    (j.Utf8 ∧ j.encodable true = true) ↔ ∀ a ∈ v.atoms, a.Fits :=
  safeOf_atoms byAtoms_fits v j h

/-- No non-finite float is left. -/
theorem safeOf_finite {v : PyValue F} {j : Json F} (h : safeOf repr v = .ok j) :
    ∀ f ∈ j.floats, PyFloat.finite f = true :=
  (safeOf_atoms byAtoms_finite v j h).2 fun _ _ => trivial

theorem byAtoms_wf : ByAtoms (F := F) Json.WF (fun _ => True) where
  null := trivial
  bool _ := trivial
  float _ _ := trivial
  int _ := iff_of_true trivial trivial
  str _ := iff_of_true trivial trivial
  ascii _ _ := trivial
  arr _ := wfList_iff
  obj kvs hkeys := by simp only [Json.WF, wfMembers_iff, true_and, and_iff_right hkeys]

/-- No object repeats a key. -/
theorem safeOf_wf {v : PyValue F} {j : Json F} (h : safeOf repr v = .ok j) : j.WF :=
  (safeOf_atoms byAtoms_wf v j h).2 fun _ _ => trivial

/-! ## When it returns -/

omit [FloatNum F] in
theorem convertsFields_iff {fields : List (PyStr × PyValue F)} :
    convertsFields fields = true ↔ ∀ kv ∈ fields, converts kv.2 = true := by
  induction fields with
  | nil => simp [convertsFields]
  | cons kv fields ih => simp [convertsFields, ih]

omit [FloatNum F] in
theorem convertsItems_iff {items : List (Key × PyValue F)} :
    convertsItems items = true ↔
      ∀ kv ∈ items, kv.1.hasName = true ∧ converts kv.2 = true := by
  induction items with
  | nil => simp [convertsItems]
  | cons kv items ih => simp [convertsItems, ih, and_assoc]

omit [FloatNum F] in
theorem convertsList_iff {xs : List (PyValue F)} :
    convertsList xs = true ↔ ∀ x ∈ xs, converts x = true := by
  induction xs with
  | nil => simp [convertsList]
  | cons x xs ih => simp [convertsList, ih]

/-- Some list is related to it element by element when every element is related to something. -/
theorem exists_forall₂ {α β : Type} {R : α → β → Prop} {xs : List α} :
    (∃ ys, List.Forall₂ R xs ys) ↔ ∀ x ∈ xs, ∃ y, R x y := by
  induction xs with
  | nil => exact iff_of_true ⟨[], .nil⟩ (List.forall_mem_nil _)
  | cons x xs ih =>
      rw [List.forall_mem_cons, ← ih]
      constructor
      · rintro ⟨_, _ | ⟨hy, hys⟩⟩
        exact ⟨⟨_, hy⟩, _, hys⟩
      · rintro ⟨⟨y, hy⟩, ys, hys⟩
        exact ⟨y :: ys, .cons hy hys⟩

theorem map_isOk {ε α β : Type} {x : Except ε α} {f : α → β} :
    (∃ b, x.map f = .ok b) ↔ ∃ a, x = .ok a := by
  cases x with
  | error e => exact ⟨nofun, nofun⟩
  | ok a => exact ⟨fun _ => ⟨a, rfl⟩, fun _ => ⟨f a, rfl⟩⟩

theorem safeList_isOk {xs : List (PyValue F)}
    (ih : ∀ x ∈ xs, (∃ j, safeOf repr x = .ok j) ↔ converts x = true) :
    (∃ js, safeList repr xs = .ok js) ↔ convertsList xs = true := by
  simp only [safeList_ok, exists_forall₂, convertsList_iff]
  exact forall₂_congr ih

/-- **When the sanitiser returns.** -/
theorem safeOf_ok_iff (v : PyValue F) :
    (∃ j, safeOf repr v = .ok j) ↔ converts v = true := by
  induction v using PyValue.inductOn with
  | none | bool b | int n | float f | str s | bytes data | path s =>
      exact iff_of_true ⟨_, rfl⟩ rfl
  | dataclass fields ih =>
      rw [safeOf, converts, Bool.and_eq_true]
      split
      · next hcopies =>
        rw [map_isOk, and_iff_right hcopies, convertsFields_iff]
        simp only [safeFields_ok, exists_forall₂]
        refine forall₂_congr fun kv hkv => ?_
        rw [← ih kv hkv]
        exact ⟨fun ⟨b, _, hb⟩ => ⟨_, hb⟩, fun ⟨j, hj⟩ => ⟨(kv.1, j), rfl, hj⟩⟩
      · next hcopies => exact iff_of_false nofun fun h => hcopies h.1
  | dict items ih =>
      rw [safeOf, converts, map_isOk, convertsItems_iff]
      simp only [safeItemsOf_ok, exists_forall₂]
      refine forall₂_congr fun kv hkv => ?_
      rw [← ih kv hkv]
      exact ⟨fun ⟨b, hkey, hb⟩ => ⟨(str_ok.1 hkey).1, _, hb⟩,
        fun ⟨hkey, j, hj⟩ => ⟨(kv.1.name, j), str_ok.2 ⟨hkey, rfl⟩, hj⟩⟩
  | list xs ih | tuple xs ih => exact Iff.trans map_isOk (safeList_isOk ih)
  | set xs ih =>
      rw [safeOf, converts, map_isOk, Bool.and_eq_true, ← safeList_isOk ih, List.all_eq_true]
      have hshort : ∀ js, safeList repr xs = .ok js →
          (encodableList true js = true ↔ ∀ a ∈ atomsList xs, a.short = true) := fun js hjs =>
        ByAtoms.items byAtoms_short (safeList_ok.1 hjs) fun x _ => safeOf_atoms byAtoms_short x
      constructor
      · rintro ⟨sorted, h⟩
        obtain ⟨js, hjs, hsort⟩ := bind_ok.1 h
        unfold sortedByRepr at hsort
        split at hsort
        · next henc => exact ⟨⟨js, hjs⟩, (hshort js hjs).1 henc⟩
        · cases hsort
      · rintro ⟨⟨js, hjs⟩, hatoms⟩
        have hsort : sortedByRepr repr js = .ok _ := if_pos ((hshort js hjs).2 hatoms)
        exact ⟨_, bind_ok.2 ⟨js, hjs, hsort⟩⟩

/-! ## Sanitising twice -/

/-- A value without non-finite floats is left alone. -/
theorem safeValue_of_finite (j : Json F) (h : ∀ f ∈ j.floats, PyFloat.finite f = true) :
    safeValue j = j := by
  induction j using Json.inductOn with
  | null | bool b | int n | str s => rfl
  | float f =>
      rw [safeValue, if_pos (h f (List.mem_singleton_self f))]
  | arr xs ih =>
      have hxs := (ByAtoms.arr byAtoms_finite xs).1 h
      rw [safeValue, safeItems_eq, List.map_congr_left fun x hx => ih x hx (hxs x hx), List.map_id']
  | obj kvs ih =>
      simp only [Json.floats, floatsMembers_eq, List.mem_flatMap, forall_exists_index, and_imp] at h
      rw [safeValue, safeMembers_eq, List.map_congr_left (g := id) fun kv hkv => by
        rw [ih kv hkv fun f hf => h f kv hkv hf]
        rfl, List.map_id]

theorem safeValue_safeOf {v : PyValue F} {j : Json F} (h : safeOf repr v = .ok j) :
    safeValue j = j :=
  safeValue_of_finite j (safeOf_finite h)

/-- On a JSON value it is the sanitiser of records. -/
theorem safeOf_ofJson (j : Json F) (h : j.WF) : safeOf repr (.ofJson j) = .ok (safeValue j) := by
  induction j using Json.inductOn with
  | null | bool b | int n | str s => rfl
  | float f =>
      rw [PyValue.ofJson, safeOf, safeValue]
  | arr xs ih =>
      have hxs : safeList repr (ofJsonList xs) = .ok (safeItems xs) := by
        rw [safeList_ok, ofJsonList_eq, safeItems_eq, List.forall₂_map_left_iff,
          List.forall₂_map_right_iff, List.forall₂_same]
        exact fun x hx => ih x hx (wfList_iff.1 h x hx)
      rw [PyValue.ofJson, safeOf, hxs]
      rfl
  | obj kvs ih =>
      have hkvs : safeItemsOf repr (ofJsonMembers kvs) = .ok (safeMembers kvs) := by
        rw [safeItemsOf_ok, ofJsonMembers_eq, safeMembers_eq, List.forall₂_map_left_iff,
          List.forall₂_map_right_iff, List.forall₂_same]
        exact fun kv hkv => ⟨rfl, ih kv hkv (wfMembers_iff.1 h.2 kv hkv)⟩
      have hkeys : (keys (safeMembers kvs)).Nodup := (safeValue_wf _ h).1
      rw [PyValue.ofJson, safeOf, hkvs, safeValue]
      exact congrArg (fun d => Except.ok (Json.obj d)) (dictOf_of_nodup hkeys)

/-- **Sanitising a sanitised value changes nothing.** -/
theorem safeOf_idempotent {v : PyValue F} {j : Json F} (h : safeOf repr v = .ok j) :
    safeOf repr (.ofJson j) = .ok j := by
  rw [safeOf_ofJson j (safeOf_wf h), safeValue_safeOf h]

omit [FloatNum F] in
/-- It never raises on a JSON value. -/
theorem converts_ofJson (j : Json F) : converts (.ofJson j) = true := by
  induction j using Json.inductOn with
  | null | bool b | int n | float f | str s => rfl
  | arr xs ih =>
      rw [PyValue.ofJson, converts, ofJsonList_eq, convertsList_iff]
      exact List.forall_mem_map.2 ih
  | obj kvs ih =>
      rw [PyValue.ofJson, converts, ofJsonMembers_eq, convertsItems_iff]
      exact List.forall_mem_map.2 fun kv hkv => ⟨rfl, ih kv hkv⟩

/-- The texts and integers of a JSON value that can be written. -/
theorem fits_ofJson (j : Json F) (h : j.Utf8 ∧ j.encodable true = true) :
    ∀ a ∈ (PyValue.ofJson j).atoms, a.Fits := by
  induction j using Json.inductOn with
  | null | bool b | float f => exact List.forall_mem_nil _
  | int n => exact List.forall_mem_singleton.2 ((ByAtoms.int byAtoms_fits n).1 h)
  | str s => exact List.forall_mem_singleton.2 ((ByAtoms.str byAtoms_fits s).1 h)
  | arr xs ih =>
      have hxs := (ByAtoms.arr byAtoms_fits xs).1 h
      rw [PyValue.ofJson, PyValue.atoms, ofJsonList_eq, atomsList_eq]
      intro a ha
      obtain ⟨v, hv, ha⟩ := List.mem_flatMap.1 ha
      obtain ⟨x, hx, rfl⟩ := List.mem_map.1 hv
      exact ih x hx (hxs x hx) a ha
  | obj kvs ih =>
      have hkvs := fits_members.1 h
      rw [PyValue.ofJson, PyValue.atoms, ofJsonMembers_eq, atomsItems_eq, List.map_map]
      intro a ha
      obtain ⟨ka, hka, ha⟩ := List.mem_flatMap.1 ha
      obtain ⟨kv, hkv, rfl⟩ := List.mem_map.1 ((dictOf_spec _).2 ka hka)
      rcases List.mem_cons.1 ha with rfl | ha
      · exact (hkvs kv hkv).1
      · exact ih kv hkv (hkvs kv hkv).2 a ha

/-! ## Dataclasses -/

theorem safeList_congr {xs ys : List (PyValue F)}
    (h : List.Forall₂ (fun x y => safeOf repr x = safeOf repr y) xs ys) :
    safeList repr xs = safeList repr ys := by
  induction h with
  | nil => rfl
  | cons hxy _ ih => simp only [safeList, hxy, ih]

theorem safeItemsOf_congr {items items' : List (Key × PyValue F)}
    (h : SameKeys (fun x y => safeOf repr x = safeOf repr y) items items') :
    safeItemsOf repr items = safeItemsOf repr items' := by
  induction h with
  | nil => rfl
  | @cons a b items items' hab _ ih =>
      obtain ⟨ka, va⟩ := a
      obtain ⟨kb, vb⟩ := b
      obtain ⟨rfl, hv⟩ := hab
      simp only [safeItemsOf, show safeOf repr va = safeOf repr vb from hv, ih]

/-- The members of a dataclass instance are those of its dictionary. -/
theorem safeItemsOf_fields {fields : List (PyStr × PyValue F)}
    (h : ∀ kv ∈ fields, safeOf repr kv.2.asdictInner = safeOf repr kv.2) :
    safeItemsOf repr (asdictFields fields) = safeFields repr fields := by
  induction fields with
  | nil => rfl
  | cons kv fields ih =>
      obtain ⟨name, v⟩ := kv
      obtain ⟨hv, hfields⟩ := List.forall_mem_cons.1 h
      simp only [asdictFields, safeItemsOf, safeFields, ih hfields, hv, Key.str, Key.hasName,
        Key.name, if_true]
      rfl

/-- What `asdict` makes of a value sanitises to the same. -/
theorem safeOf_asdictInner (v : PyValue F) (h : v.copies = true) :
    safeOf repr v.asdictInner = safeOf repr v := by
  induction v using PyValue.inductOn with
  | none | bool b | int n | float f | str s | bytes data | path s | set xs => rfl
  | dataclass fields ih =>
      have hall : copiesFields fields = true := h
      have hfields := copiesFields_iff.1 hall
      rw [PyValue.asdictInner, safeOf, safeOf, if_pos hall,
        safeItemsOf_fields fun kv hkv => ih kv hkv (hfields kv hkv)]
  | dict items ih =>
      have hitems := copiesItems_values h
      rw [PyValue.asdictInner, safeOf, safeOf, safeItemsOf_congr]
      rw [asdictItems_eq]
      exact List.forall₂_map_left_iff.2 (List.forall₂_same.2 fun kv hkv =>
        ⟨rfl, ih kv hkv (hitems kv hkv)⟩)
  | list xs ih | tuple xs ih =>
      have hxs := copiesList_iff.1 h
      rw [PyValue.asdictInner, safeOf, safeOf, safeList_congr]
      rw [asdictList_eq, List.forall₂_map_left_iff, List.forall₂_same]
      exact fun x hx => ih x hx (hxs x hx)

/-- **A dataclass instance is sanitised as its dictionary.** -/
theorem safeOf_dataclass (fields : List (PyStr × PyValue F)) :
    safeOf repr (.dataclass fields) = asdict (.dataclass fields) >>= safeOf repr := by
  by_cases h : copiesFields fields = true
  · rw [asdict, PyValue.copies, if_pos h]
    exact (safeOf_asdictInner (.dataclass fields) h).symm
  · rw [asdict, PyValue.copies, if_neg h, safeOf, if_neg h]
    rfl

end Members

end Elyra.Audit
