import Mathlib.Data.List.Sort
import Elyra.Audit.Verify
import Elyra.Python.Digits

set_option autoImplicit false

/-! # The log directory

The regular files of a log directory by name, the naming of rotated segments (`_segment_index`,
`_segments_for`), and the effects a logger has on the files. Rotation gives the active file the next
six-digit number, so the rotated segments in numeric order are the history in order of rotation:
`rotated_replace` and `rotated_unlink` say what the two effects do to that order.

A name may end in digits that `int` does not read; every listing then raises, and no call of a logger
gets to the files. The other definitions speak of directories without such a name (`listRotated_ok_iff`),
which the effects do not bring in (`Listable.of_names`). -/

namespace Elyra.Audit

open Elyra.Python

/-- A log directory: its regular files in the order in which `iterdir` gives them, and those below
    `corrupt/`. The lock file is not listed: its name is never the name of a segment. -/
structure Dir where
  files : Dict PyStr Bytes := Dict.empty
  corrupt : Dict PyStr Bytes := Dict.empty

/-! ## Names -/

/-- `_segment_index`. Not every digit is one that `int` reads. -/
def segmentIndex (fileName name : PyStr) : Except PyExc (Option Nat) :=
  match stripText (fileName ++ [46]) name with
  | none => .ok none
  | some suffix =>
      if suffix.length = 6 ∧ suffix.all isUnicodeDigit = true then
        match decimalsVal suffix with
        | some index => .ok (some index)
        | none => .error .valueError
      else .ok none

/-- The number of a segment, of a name that does not raise. -/
def segmentNumber (fileName name : PyStr) : Option Nat :=
  match segmentIndex fileName name with
  | .ok index => index
  | .error _ => none

/-- `f"{index:06d}"`. -/
def sixDigits (index : Nat) : PyStr :=
  List.replicate (6 - (natText index).length) 48 ++ natText index

/-- The name of a rotated segment. -/
def rotatedName (fileName : PyStr) (index : Nat) : PyStr := fileName ++ [46] ++ sixDigits index

/-- A rotated segment: its number, its name and its bytes. -/
abbrev Rotated := Nat × PyStr × Bytes

/-- `key=lambda item: item[0]`. -/
def byNumber (a b : Rotated) : Prop := a.1 ≤ b.1

instance : DecidableRel byNumber := fun a b => inferInstanceAs (Decidable (a.1 ≤ b.1))

instance : Std.Total byNumber := ⟨fun a b => Nat.le_total a.1 b.1⟩

instance : IsTrans Rotated byNumber := ⟨fun _ _ _ h h' => Nat.le_trans h h'⟩

/-- The rotated segments, in numeric order. -/
def rotatedOf (fileName : PyStr) (dir : Dir) : List Rotated :=
  (dir.files.items.filterMap (fun file =>
    (segmentNumber fileName file.1).map (fun index => (index, file.1, file.2)))).insertionSort
      byNumber

/-- The loop of `_segments_for` over the directory. -/
def listRotated (fileName : PyStr) (dir : Dir) : Except PyExc (List Rotated) := do
  let numbered ← dir.files.items.mapM fun file => do
    let index ← segmentIndex fileName file.1
    return index.map fun index => (index, file.1, file.2)
  return (numbered.filterMap id).insertionSort byNumber

/-- `_segments_for`: the rotated segments and then the active file, each with its bytes. -/
def segmentsFor (fileName : PyStr) (dir : Dir) : List (PyStr × Bytes) :=
  (rotatedOf fileName dir).map Prod.snd ++
    match dir.files.get? fileName with
    | none => []
    | some data => [(fileName, data)]

/-- `_segments_for`, with what it raises. -/
def listSegments (fileName : PyStr) (dir : Dir) : Except PyExc (List (PyStr × Bytes)) := do
  let rotated ← listRotated fileName dir
  return rotated.map Prod.snd ++
    match dir.files.get? fileName with
    | none => []
    | some data => [(fileName, data)]

/-- `_next_rotation_index_locked`. -/
def nextRotationIndex (fileName : PyStr) (dir : Dir) : Nat :=
  ((rotatedOf fileName dir).map (·.1)).foldr max 0 + 1

/-! ## Effects -/

/-- What a logger does to the files, one atomic step at a time. -/
inductive Effect where
  | replace (src dst : PyStr)
  | unlink (name : PyStr)
  | create (name : PyStr)
  | append (name : PyStr) (data : Bytes)

def Effect.apply (d : Dir) : Effect → Dir
  | .replace src dst =>
      match d.files.get? src with
      | none => d
      | some data => { d with files := (d.files.pop src).set dst data }
  | .unlink name => { d with files := d.files.pop name }
  | .create name =>
      match d.files.get? name with
      | none => { d with files := d.files.set name [] }
      | some _ => d
  | .append name data =>
      { d with files := d.files.set name ((d.files.get? name).getD [] ++ data) }

def applyAll (d : Dir) (effects : List Effect) : Dir := effects.foldl Effect.apply d

theorem applyAll_append (d : Dir) (a b : List Effect) :
    applyAll d (a ++ b) = applyAll (applyAll d a) b := List.foldl_append

/-! ## Names and numbers -/

theorem stripText_eq_some {pre name suffix : PyStr} (h : stripText pre name = some suffix) :
    name = pre ++ suffix := by
  induction pre generalizing name with
  | nil =>
      simp only [stripText, Option.some.injEq] at h
      simp [h]
  | cons c pre ih =>
      cases name with
      | nil => exact absurd h (by simp [stripText])
      | cons c' name =>
          simp only [stripText] at h
          split at h
          · next heq => simp [ih h, heq]
          · exact absurd h (by simp)

/-- A rotated segment has the name of the log, a dot and six digits. -/
theorem segmentNumber_eq_some {fileName name : PyStr} {i : Nat}
    (h : segmentNumber fileName name = some i) :
    ∃ suffix, name = fileName ++ [46] ++ suffix ∧ suffix.length = 6 ∧
      suffix.all isUnicodeDigit = true := by
  unfold segmentNumber segmentIndex at h
  cases hstrip : stripText (fileName ++ [46]) name with
  | none => simp [hstrip] at h
  | some suffix =>
      simp only [hstrip] at h
      split_ifs at h with hsix
      exact ⟨suffix, stripText_eq_some hstrip, hsix⟩

theorem segmentIndex_fileName (fileName : PyStr) : segmentIndex fileName fileName = .ok none := by
  unfold segmentIndex
  split
  · rfl
  · next suffix hs =>
    have h := congrArg List.length (stripText_eq_some hs)
    simp only [List.length_append, List.length_cons, List.length_nil] at h
    omega

theorem segmentNumber_fileName (fileName : PyStr) : segmentNumber fileName fileName = none := by
  rw [segmentNumber, segmentIndex_fileName]

theorem digitsVal_zeros (n : Nat) (s : PyStr) :
    digitsVal (List.replicate n 48 ++ s) = digitsVal s := by
  unfold digitsVal
  rw [List.foldl_append]
  congr 1
  induction n with
  | zero => rfl
  | succ n ih => simpa [List.replicate_succ] using ih

theorem sixDigits_ascii (index : Nat) : (sixDigits index).all isDigit = true := by
  simp only [sixDigits, List.all_append, natText_digits, Bool.and_true, List.all_replicate]
  split <;> decide

/-- What is read back from the name of a rotated segment: its number, if six digits are enough. -/
theorem segmentIndex_rotatedName (fileName : PyStr) (index : Nat) :
    segmentIndex fileName (rotatedName fileName index) =
      .ok (if index ≤ 999999 then some index else none) := by
  have hdigits : (sixDigits index).all isUnicodeDigit = true :=
    List.all_eq_true.2 fun c hc => isUnicodeDigit_ascii (List.all_eq_true.1 (sixDigits_ascii index) c hc)
  have hval : decimalsVal (sixDigits index) = some index := by
    rw [decimalsVal_ascii (sixDigits_ascii index), sixDigits, digitsVal_zeros, digitsVal_natText]
  have hlength : (sixDigits index).length = 6 ↔ index ≤ 999999 := by
    have hbound := natText_length_le (n := index) (k := 6) (by decide)
    simp only [sixDigits, List.length_append, List.length_replicate]
    omega
  simp only [segmentIndex, rotatedName, stripText_append, hlength, hdigits, and_true, hval]
  split_ifs <;> rfl

theorem segmentNumber_rotatedName (fileName : PyStr) {index : Nat} (h : index ≤ 999999) :
    segmentNumber fileName (rotatedName fileName index) = some index := by
  rw [segmentNumber, segmentIndex_rotatedName, if_pos h]

/-- A number of seven digits or more is not read back from the name. -/
theorem segmentNumber_long (fileName : PyStr) {index : Nat} (h : 999999 < index) :
    segmentNumber fileName (rotatedName fileName index) = none := by
  rw [segmentNumber, segmentIndex_rotatedName, if_neg (by omega)]

/-! ## Sorting -/

section Sorting

variable {α : Type} {r : α → α → Prop} [DecidableRel r]

theorem orderedInsert_first {a : α} {l : List α} (h : ∀ b ∈ l, r a b) :
    l.orderedInsert r a = a :: l := by
  cases l with
  | nil => rfl
  | cons b l => exact List.orderedInsert_cons_of_le _ _ (h b (List.mem_cons_self ..))

/-- Inserting leaves the greatest at the end. -/
theorem orderedInsert_concat {a x : α} (s : List α) (hx : r a x) :
    (s ++ [x]).orderedInsert r a = s.orderedInsert r a ++ [x] := by
  induction s with
  | nil => simp [hx]
  | cons b s ih =>
      simp only [List.cons_append, List.orderedInsert_cons, ih]
      split_ifs <;> rfl

theorem insertionSort_concat {x : α} {l : List α} (hx : ∀ a ∈ l, r a x) :
    (l ++ [x]).insertionSort r = l.insertionSort r ++ [x] := by
  induction l with
  | nil => rfl
  | cons a l ih =>
      obtain ⟨ha, hl⟩ := List.forall_mem_cons.1 hx
      rw [List.cons_append, List.insertionSort_cons, ih hl, orderedInsert_concat _ ha,
        List.insertionSort_cons]

variable [IsTrans α r]

theorem filter_orderedInsert (p : α → Bool) (a : α) {s : List α} (hs : s.Pairwise r) :
    (s.orderedInsert r a).filter p =
      if p a = true then (s.filter p).orderedInsert r a else s.filter p := by
  induction s with
  | nil => by_cases ha : p a = true <;> simp [ha]
  | cons b s ih =>
      obtain ⟨hb, hs'⟩ := List.pairwise_cons.1 hs
      by_cases hab : r a b
      · have hfirst : ∀ x ∈ (b :: s).filter p, r a x := by
          intro x hx
          rcases List.mem_cons.1 (List.mem_of_mem_filter hx) with rfl | hmem
          · exact hab
          · exact IsTrans.trans a b x hab (hb x hmem)
        rw [List.orderedInsert_cons_of_le _ _ hab, List.filter_cons, orderedInsert_first hfirst]
      · rw [List.orderedInsert_of_not_le _ _ hab, List.filter_cons, ih hs']
        by_cases hpb : p b = true
        · by_cases ha : p a = true <;> simp [ha, hpb, hab]
        · simp [hpb]

/-- Sorting is stable: what is taken out does not change the order of the rest. -/
theorem insertionSort_filter [Std.Total r] (p : α → Bool) (l : List α) :
    (l.filter p).insertionSort r = (l.insertionSort r).filter p := by
  induction l with
  | nil => rfl
  | cons a l ih =>
      rw [List.insertionSort_cons, filter_orderedInsert p a (List.pairwise_insertionSort r l), ← ih,
        List.filter_cons]
      split_ifs <;> rfl

end Sorting

/-! ## The order of the rotated segments -/

theorem mem_rotatedOf {fileName : PyStr} {dir : Dir} {i : Nat} {name : PyStr} {data : Bytes} :
    (i, name, data) ∈ rotatedOf fileName dir ↔
      dir.files.get? name = some data ∧ segmentNumber fileName name = some i := by
  rw [rotatedOf, List.mem_insertionSort, List.mem_filterMap]
  constructor
  · rintro ⟨⟨name', data'⟩, hmem, heq⟩
    cases hidx : segmentNumber fileName name' with
    | none => simp [hidx] at heq
    | some j =>
        simp only [hidx, Option.map_some, Option.some.injEq, Prod.mk.injEq] at heq
        obtain ⟨rfl, rfl, rfl⟩ := heq
        exact ⟨Dict.mem_items.1 hmem, hidx⟩
  · rintro ⟨hget, hidx⟩
    exact ⟨(name, data), Dict.mem_items.2 hget, by simp [hidx]⟩

theorem rotatedOf_nodup (fileName : PyStr) (dir : Dir) : (rotatedOf fileName dir).Nodup := by
  rw [rotatedOf, (List.perm_insertionSort _ _).nodup_iff]
  refine List.Nodup.filterMap ?_ (List.Nodup.of_map _ dir.files.nodup)
  rintro ⟨n₁, d₁⟩ ⟨n₂, d₂⟩ x h₁ h₂
  simp only [Option.mem_def, Option.map_eq_some_iff] at h₁ h₂
  obtain ⟨i, -, rfl⟩ := h₁
  obtain ⟨j, -, h⟩ := h₂
  simp only [Prod.mk.injEq] at h
  simp [h.2.1, h.2.2]

/-- The rotated segments have different names. -/
theorem rotatedOf_names (fileName : PyStr) (dir : Dir) :
    ((rotatedOf fileName dir).map (fun r => r.2.1)).Nodup := by
  refine List.Nodup.map_on ?_ (rotatedOf_nodup fileName dir)
  rintro ⟨i, n, d⟩ h₁ ⟨j, n', d'⟩ h₂ heq
  simp only at heq
  subst heq
  obtain ⟨hg, hi⟩ := mem_rotatedOf.1 h₁
  obtain ⟨hg', hj⟩ := mem_rotatedOf.1 h₂
  rw [hg, Option.some.injEq] at hg'
  rw [hi, Option.some.injEq] at hj
  rw [hg', hj]

/-! ## Listing -/

/-- No name of the directory raises. -/
def Listable (fileName : PyStr) (dir : Dir) : Prop :=
  ∀ name data, dir.files.get? name = some data → (segmentIndex fileName name).isOk = true

/-- **The listing raises at a name whose digits `int` does not read**, and else gives the segments. -/
theorem listRotated_ok_iff {fileName : PyStr} {dir : Dir} {rotated : List Rotated} :
    listRotated fileName dir = .ok rotated ↔
      Listable fileName dir ∧ rotated = rotatedOf fileName dir := by
  have hlist : ∀ items : List (PyStr × Bytes), ∀ numbered,
      (items.mapM fun file => do
        let index ← segmentIndex fileName file.1
        return index.map fun index => ((index, file.1, file.2) : Rotated)) =
        (.ok numbered : Except PyExc _) ↔
      (∀ file ∈ items, (segmentIndex fileName file.1).isOk = true) ∧
        numbered = items.map fun file =>
          (segmentNumber fileName file.1).map fun index => (index, file.1, file.2) := by
    intro items
    induction items with
    | nil =>
        intro numbered
        refine ⟨fun h => ⟨fun _ hfile => ?_, (Except.ok.inj h).symm⟩, fun h => h.2 ▸ rfl⟩
        cases hfile
    | cons file items ih =>
        intro numbered
        rw [List.mapM_cons, List.forall_mem_cons, List.map_cons]
        cases hindex : segmentIndex fileName file.1 with
        | error e =>
            constructor
            · intro h
              obtain ⟨first, hfirst, -⟩ := bind_ok.1 h
              obtain ⟨index, hraised, -⟩ := bind_ok.1 hfirst
              cases hraised
            · rintro ⟨⟨h, -⟩, -⟩
              cases h
        | ok index =>
            have hnumber : segmentNumber fileName file.1 = index := by rw [segmentNumber, hindex]
            rw [hnumber]
            constructor
            · intro h
              obtain ⟨first, hfirst, h⟩ := bind_ok.1 h
              obtain ⟨rest, hrest, h⟩ := bind_ok.1 h
              obtain rfl := Except.ok.inj h
              obtain rfl := Except.ok.inj hfirst
              obtain ⟨hok, rfl⟩ := (ih rest).1 hrest
              exact ⟨⟨rfl, hok⟩, rfl⟩
            · rintro ⟨⟨-, hok⟩, rfl⟩
              exact bind_ok.2 ⟨_, rfl, bind_ok.2 ⟨_, (ih _).2 ⟨hok, rfl⟩, rfl⟩⟩
  have hitems : (∀ file ∈ dir.files.items, (segmentIndex fileName file.1).isOk = true) ↔
      Listable fileName dir := by
    refine ⟨fun h name data hget => h (name, data) (Dict.mem_items.2 hget), fun h file hmem => ?_⟩
    exact h file.1 file.2 (Dict.mem_items.1 hmem)
  have hsort : ((dir.files.items.map fun file => (segmentNumber fileName file.1).map
      fun index => ((index, file.1, file.2) : Rotated)).filterMap id).insertionSort byNumber =
        rotatedOf fileName dir := by
    rw [List.filterMap_map]
    rfl
  unfold listRotated
  constructor
  · intro h
    obtain ⟨numbered, hnumbered, h⟩ := bind_ok.1 h
    obtain ⟨hok, rfl⟩ := (hlist _ _).1 hnumbered
    exact ⟨hitems.1 hok, (Except.ok.inj h).symm.trans hsort⟩
  · rintro ⟨hok, rfl⟩
    exact bind_ok.2 ⟨_, (hlist _ _).2 ⟨hitems.2 hok, rfl⟩, congrArg Except.ok hsort⟩

theorem listSegments_ok_iff {fileName : PyStr} {dir : Dir} {segments : List (PyStr × Bytes)} :
    listSegments fileName dir = .ok segments ↔
      Listable fileName dir ∧ segments = segmentsFor fileName dir := by
  unfold listSegments
  constructor
  · intro h
    obtain ⟨rotated, hrotated, h⟩ := bind_ok.1 h
    obtain ⟨hok, rfl⟩ := listRotated_ok_iff.1 hrotated
    exact ⟨hok, (Except.ok.inj h).symm⟩
  · rintro ⟨hok, rfl⟩
    exact bind_ok.2 ⟨_, listRotated_ok_iff.2 ⟨hok, rfl⟩, rfl⟩

/-! ## What the effects do -/

section Effects

variable {fileName : PyStr} {dir dir' : Dir}

/-- Writing a file that is not listed leaves the rotated segments alone. -/
theorem rotatedOf_set {name : PyStr} (hname : segmentNumber fileName name = none) (data : Bytes)
    (corrupt : Dict PyStr Bytes) :
    rotatedOf fileName { files := dir.files.set name data, corrupt := corrupt } =
      rotatedOf fileName dir := by
  unfold rotatedOf
  congr 1
  exact filterMap_assign (fun v => by rw [hname]; rfl) dir.files.items

/-- Writing the active file leaves the rotated segments alone. -/
theorem rotatedOf_set_active (data : Bytes) :
    rotatedOf fileName { dir with files := dir.files.set fileName data } =
      rotatedOf fileName dir := rotatedOf_set (segmentNumber_fileName fileName) data _

/-- Taking a file out takes it out of the listing. -/
theorem rotatedOf_pop (name : PyStr) (corrupt : Dict PyStr Bytes) :
    rotatedOf fileName { files := dir.files.pop name, corrupt := corrupt } =
      (rotatedOf fileName dir).filter fun r => decide (r.2.1 ≠ name) := by
  unfold rotatedOf
  rw [← insertionSort_filter, Dict.pop_items]
  congr 1
  induction dir.files.items with
  | nil => rfl
  | cons file items ih =>
      by_cases hfile : file.1 = name
      · rw [List.filter_cons_of_neg (by simp [hfile]), ih, List.filterMap_cons]
        cases segmentNumber fileName file.1 with
        | none => rfl
        | some i => exact (List.filter_cons_of_neg (by simp [hfile])).symm
      · rw [List.filter_cons_of_pos (by simp [hfile]), List.filterMap_cons, List.filterMap_cons, ih]
        cases segmentNumber fileName file.1 with
        | none => rfl
        | some i => exact (List.filter_cons_of_pos (by simp [hfile])).symm

theorem rotatedOf_pop_active (corrupt : Dict PyStr Bytes) :
    rotatedOf fileName { files := dir.files.pop fileName, corrupt := corrupt } =
      rotatedOf fileName dir := by
  rw [rotatedOf_pop]
  refine List.filter_eq_self.2 ?_
  rintro ⟨i, name, data⟩ hmem
  have hnumber := (mem_rotatedOf.1 hmem).2
  refine decide_eq_true ?_
  rintro rfl
  rw [segmentNumber_fileName] at hnumber
  cases hnumber

/-- A directory with nothing but the active file. -/
theorem rotatedOf_single (fileName : PyStr) (data : Bytes) :
    rotatedOf fileName { files := Dict.empty.set fileName data } = [] := by
  show rotatedOf fileName { ({} : Dir) with files := ({} : Dir).files.set fileName data } = []
  rw [rotatedOf_set_active]
  rfl

theorem segmentsFor_single (fileName : PyStr) (data : Bytes) :
    segmentsFor fileName { files := Dict.empty.set fileName data } = [(fileName, data)] := by
  rw [segmentsFor, rotatedOf_single, Dict.get?_set_self]
  rfl

theorem rotatedName_ne (index : Nat) : rotatedName fileName index ≠ fileName := by
  intro h
  have hlen := congrArg List.length h
  simp only [rotatedName, List.length_append, List.length_cons, List.length_nil] at hlen
  omega

theorem le_nextRotationIndex {segment : Rotated} (h : segment ∈ rotatedOf fileName dir) :
    segment.1 < nextRotationIndex fileName dir := by
  have hmax : ∀ (l : List Nat) (x : Nat), x ∈ l → x ≤ l.foldr max 0 := by
    intro l
    induction l with
    | nil => intro x hx; exact absurd hx (by simp)
    | cons y l ih =>
        intro x hx
        simp only [List.foldr_cons]
        rcases List.mem_cons.1 hx with rfl | hx
        · exact le_max_left ..
        · exact (ih x hx).trans (le_max_right ..)
  exact Nat.lt_succ_of_le (hmax _ _ (List.mem_map.2 ⟨segment, h, rfl⟩))

theorem nextRotationIndex_le {k : Nat} :
    nextRotationIndex fileName dir ≤ k + 1 ↔ ∀ segment ∈ rotatedOf fileName dir, segment.1 ≤ k := by
  constructor
  · intro h segment hmem
    have := le_nextRotationIndex hmem
    omega
  · intro h
    unfold nextRotationIndex
    refine Nat.succ_le_succ ?_
    generalize rotatedOf fileName dir = segments at h
    induction segments with
    | nil => simp
    | cons segment segments ih =>
        simp only [List.map_cons, List.foldr_cons]
        exact max_le (h segment (by simp)) (ih fun x hx => h x (List.mem_cons_of_mem _ hx))

/-- The name of the next rotation is not taken, while six digits are enough. -/
theorem rotatedName_fresh (h : nextRotationIndex fileName dir ≤ 999999) :
    dir.files.get? (rotatedName fileName (nextRotationIndex fileName dir)) = none := by
  cases hget : dir.files.get? (rotatedName fileName (nextRotationIndex fileName dir)) with
  | none => rfl
  | some data =>
      have hmem := mem_rotatedOf.2 ⟨hget, segmentNumber_rotatedName fileName h⟩
      exact absurd (le_nextRotationIndex hmem) (lt_irrefl _)

/-- The effect of `os.replace(self.log_path, rotated)`: the active file becomes the last rotated
    segment. -/
theorem rotated_replace {data : Bytes} (hactive : dir.files.get? fileName = some data)
    (hindex : nextRotationIndex fileName dir ≤ 999999) :
    rotatedOf fileName (Effect.apply dir
        (.replace fileName (rotatedName fileName (nextRotationIndex fileName dir)))) =
      rotatedOf fileName dir ++ [(nextRotationIndex fileName dir,
        rotatedName fileName (nextRotationIndex fileName dir), data)] ∧
    (Effect.apply dir (.replace fileName (rotatedName fileName
      (nextRotationIndex fileName dir)))).files.get? fileName = none := by
  have hfresh := rotatedName_fresh hindex
  have hidx := segmentNumber_rotatedName fileName hindex
  have hlt : ∀ segment ∈ rotatedOf fileName dir, segment.1 < nextRotationIndex fileName dir :=
    fun _ => le_nextRotationIndex
  generalize nextRotationIndex fileName dir = n at *
  have hne : rotatedName fileName n ≠ fileName := rotatedName_ne n
  have hpopped : (dir.files.pop fileName).get? (rotatedName fileName n) = none := by
    rw [Dict.get?_pop_ne _ hne, hfresh]
  have hrotated : rotatedOf fileName { dir with files := dir.files.pop fileName } =
      rotatedOf fileName dir := rotatedOf_pop_active dir.corrupt
  simp only [Effect.apply, hactive]
  refine ⟨?_, ?_⟩
  · rw [← hrotated] at hlt ⊢
    unfold rotatedOf at hlt ⊢
    rw [Dict.set_items_new hpopped, List.filterMap_append, List.filterMap_cons, hidx]
    refine insertionSort_concat fun segment hmem => ?_
    exact (hlt segment ((List.mem_insertionSort _).2 hmem)).le
  · rw [Dict.get?_set_ne _ (Ne.symm hne), Dict.get?_pop_self]

/-- A rotation beyond six digits: the segment is not listed. -/
theorem rotated_replace_long {data : Bytes} (hactive : dir.files.get? fileName = some data)
    (hindex : 999999 < nextRotationIndex fileName dir) :
    rotatedOf fileName (Effect.apply dir
        (.replace fileName (rotatedName fileName (nextRotationIndex fileName dir)))) =
      rotatedOf fileName dir := by
  simp only [Effect.apply, hactive]
  have hset := @rotatedOf_set fileName { dir with files := dir.files.pop fileName } _
    (segmentNumber_long fileName hindex) data dir.corrupt
  exact hset.trans (rotatedOf_pop_active dir.corrupt)

/-- The effect of unlinking the oldest rotated segment. -/
theorem rotated_unlink {segment : Rotated} {rest : List Rotated}
    (h : rotatedOf fileName dir = segment :: rest) :
    rotatedOf fileName (Effect.apply dir (.unlink segment.2.1)) = rest ∧
    (Effect.apply dir (.unlink segment.2.1)).files.get? fileName = dir.files.get? fileName := by
  have hnames := rotatedOf_names fileName dir
  rw [h, List.map_cons, List.nodup_cons] at hnames
  have hnumber := (mem_rotatedOf.1 (h ▸ List.mem_cons_self : segment ∈ rotatedOf fileName dir)).2
  have hfile : fileName ≠ segment.2.1 := by
    intro heq
    rw [← heq, segmentNumber_fileName] at hnumber
    cases hnumber
  refine ⟨?_, Dict.get?_pop_ne _ hfile⟩
  rw [Effect.apply, rotatedOf_pop, h, List.filter_cons_of_neg (by simp)]
  refine List.filter_eq_self.2 fun r hr => decide_eq_true fun heq => hnames.1 ?_
  exact heq ▸ List.mem_map_of_mem hr

/-! ## The names that a logger gives -/

/-- The name under which an effect puts a file. -/
def Effect.target : Effect → Option PyStr
  | .replace _ dst => some dst
  | .unlink _ => none
  | .create name => some name
  | .append name _ => some name

/-- The log file, or a rotated segment of any number. -/
def LogName (fileName name : PyStr) : Prop := name = fileName ∨ ∃ index, name = rotatedName fileName index

/-- Every file of the second directory has a name of the first, or one that the logger gives. -/
def NamesFrom (fileName : PyStr) (dir dir' : Dir) : Prop :=
  ∀ name, (dir'.files.get? name).isSome = true →
    (dir.files.get? name).isSome = true ∨ LogName fileName name

theorem NamesFrom.refl (fileName : PyStr) (dir : Dir) : NamesFrom fileName dir dir :=
  fun _ h => .inl h

theorem NamesFrom.trans {dir'' : Dir} (h : NamesFrom fileName dir dir')
    (h' : NamesFrom fileName dir' dir'') : NamesFrom fileName dir dir'' := by
  intro name hname
  rcases h' name hname with hname | hlog
  · exact h name hname
  · exact .inr hlog

theorem NamesFrom.set (h : NamesFrom fileName dir dir') {name : PyStr} (hname : LogName fileName name)
    (data : Bytes) (corrupt : Dict PyStr Bytes) :
    NamesFrom fileName dir { files := dir'.files.set name data, corrupt := corrupt } := by
  intro name' hname'
  by_cases heq : name' = name
  · exact .inr (heq ▸ hname)
  · rw [Dict.get?_set_ne _ heq] at hname'
    exact h name' hname'

theorem NamesFrom.pop (h : NamesFrom fileName dir dir') (name : PyStr) (corrupt : Dict PyStr Bytes) :
    NamesFrom fileName dir { files := dir'.files.pop name, corrupt := corrupt } := by
  intro name' hname'
  obtain ⟨data, hdata⟩ := Option.isSome_iff_exists.1 hname'
  exact h name' (Option.isSome_iff_exists.2 ⟨data, (Dict.get?_of_pop hdata).2⟩)

theorem Effect.apply_names {e : Effect} (he : ∀ name ∈ e.target, LogName fileName name) :
    NamesFrom fileName dir (e.apply dir) := by
  have hself := NamesFrom.refl fileName dir
  cases e with
  | replace src dst =>
      simp only [Effect.apply]
      split
      · exact hself
      · exact (hself.pop src dir.corrupt).set (he dst rfl) _ _
  | unlink name => exact hself.pop name _
  | create name =>
      simp only [Effect.apply]
      split
      · exact hself.set (he name rfl) _ _
      · exact hself
  | append name data => exact hself.set (he name rfl) _ _

theorem applyAll_names {effects : List Effect}
    (h : ∀ e ∈ effects, ∀ name ∈ e.target, LogName fileName name) :
    NamesFrom fileName dir (applyAll dir effects) := by
  induction effects generalizing dir with
  | nil => exact .refl fileName dir
  | cons e effects ih =>
      obtain ⟨he, heffects⟩ := List.forall_mem_cons.1 h
      exact (Effect.apply_names he).trans (ih heffects)

/-- The names that a logger gives do not raise. -/
theorem LogName.index_ok {name : PyStr} (h : LogName fileName name) :
    (segmentIndex fileName name).isOk = true := by
  rcases h with rfl | ⟨index, rfl⟩
  · rw [segmentIndex_fileName]
    rfl
  · rw [segmentIndex_rotatedName]
    rfl

/-- **A directory without a name that raises stays without one.** -/
theorem Listable.of_names (h : Listable fileName dir) (hnames : NamesFrom fileName dir dir') :
    Listable fileName dir' := by
  intro name data hget
  rcases hnames name (Option.isSome_iff_exists.2 ⟨data, hget⟩) with hold | hlog
  · obtain ⟨old, hold⟩ := Option.isSome_iff_exists.1 hold
    exact h name old hold
  · exact hlog.index_ok

end Effects

end Elyra.Audit
