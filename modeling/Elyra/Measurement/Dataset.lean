import Elyra.Python.Exceptions
import Elyra.Python.JsonCanon
import Elyra.Python.Ordering
import Elyra.Python.Raising
import Elyra.Python.Register
import Elyra.Python.Sha256

set_option autoImplicit false

/-! # Dataset manifests

`measurement/dataset.py`. A record is a dictionary with hashable keys and values. `validate_manifest`
reads the records once and remembers the split of every hash and of every family; it accepts a list
exactly if each record passes the checks of its fields and no hash and no family has two splits
(`validateManifest_isOk_iff`), so the order of the records does not count. -/

namespace Elyra.Measurement

open Elyra.Python

/-- A hashable value: `other` is an object that equals no string. -/
inductive Value (V : Type) where
  | none
  | bool (b : Bool)
  | int (n : Int)
  | str (s : PyStr)
  | other (v : V)

/-- A key of a record: a string, or an object that equals no string. -/
inductive Key (K : Type) where
  | str (s : PyStr)
  | other (k : K)
  deriving DecidableEq

/-- What the objects of other types do. -/
structure Objects (V K : Type) where
  /-- Whether the object equals `True` or `False`, as `1.0` does. -/
  isBool : V → Bool
  reprKey : Key K → PyStr
  reprValue : Value V → PyStr
  /-- `sorted` on items whose keys are not all strings. -/
  sortedMixed : List (Key K × Value V) → Except Exc (List (Key K × Value V))

section Validate

variable {V K : Type} [DecidableEq K] (o : Objects V K)

abbrev Record (V K : Type) [DecidableEq K] := Dict (Key K) (Value V)

/-- `record.get(key)`, where it is a string. -/
def fieldText (record : Record V K) (key : String) : Option PyStr :=
  match record.get? (.str (py key)) with
  | some (.str s) => some s
  | _ => none

def datasetManifestError (message : String) : Exc := ⟨.other (py "DatasetManifestError"), py message⟩

/-- `seen_hashes` and `seen_families`. -/
structure Seen where
  hashes : Dict PyStr PyStr
  families : Dict PyStr PyStr

def requiredFields : List String := ["sample_id", "sha256", "split", "label"]

def checkFields (record : Record V K) : Except Exc Unit :=
  requiredFields.forM fun key =>
    if (record.get? (.str (py key))).isSome then .ok ()
    else .error (datasetManifestError ("missing field: " ++ key))

def checkDigest (record : Record V K) : Except Exc PyStr :=
  match fieldText record "sha256" with
  | some digest =>
      if digest.length ≠ 64 ∨ digest.any fun char => !(py "0123456789abcdef").contains char then
        .error (datasetManifestError "sha256 must be lowercase hexadecimal")
      else .ok digest
  | none => .error (datasetManifestError "sha256 must be lowercase hexadecimal")

def checkSplit (record : Record V K) : Except Exc PyStr :=
  match fieldText record "split" with
  | some split =>
      if [py "train", py "validation", py "test"].contains split then .ok split
      else .error (datasetManifestError "split must be train, validation or test")
  | none => .error (datasetManifestError "split must be train, validation or test")

/-- `record["label"] in {True, False, None}`, which the integers 0 and 1 are as well. -/
def isLabel : Value V → Bool
  | .none => true
  | .bool _ => true
  | .int n => n == 0 || n == 1
  | .str _ => false
  | .other v => o.isBool v

/-- The family, where the record has one. -/
def familyOf (record : Record V K) : Option PyStr :=
  (fieldText record "family").filter fun family => family != []

def noteFamily (families : Dict PyStr PyStr) (split : PyStr) :
    Option PyStr → Except Exc (Dict PyStr PyStr)
  | some family => families.note family split
      (datasetManifestError "sample family appears in multiple splits")
  | none => .ok families

def checkLabel (record : Record V K) : Except Exc Unit :=
  match record.get? (.str (py "label")) with
  | some label =>
      if isLabel o label then .ok ()
      else .error (datasetManifestError "label must be true, false or null")
  | none => .error (datasetManifestError "missing field: label")

/-- The body of the loop of `validate_manifest`. -/
def checkRecord (seen : Seen) (record : Record V K) : Except Exc Seen := do
  checkFields record
  let digest ← checkDigest record
  let split ← checkSplit record
  let hashes ← seen.hashes.note digest split
    (datasetManifestError "identical sample hash appears in multiple splits")
  let families ← noteFamily seen.families split (familyOf record)
  checkLabel o record
  return ⟨hashes, families⟩

def validateManifest (records : List (Record V K)) : Except Exc (List (Record V K)) := do
  let _ ← records.foldlM (checkRecord o) ⟨Dict.empty, Dict.empty⟩
  return records

/-! ## The digest -/

/-- The text of a key that is a string. -/
def Key.text? : Key K → Option PyStr
  | .str s => some s
  | .other _ => none

/-- `sorted(item.items())`: no two keys are equal, so the values are not compared. -/
def sortedItems (items : List (Key K × Value V)) : Except Exc (List (Key K × Value V)) :=
  if items.all fun kv => kv.1.text?.isSome then
    .ok (items.insertionSort fun a b => keyLe (a.1.text?.getD []) (b.1.text?.getD []))
  else o.sortedMixed items

/-- `str` of a list of pairs. -/
def strItems (items : List (Key K × Value V)) : PyStr :=
  py "[" ++ List.intercalate (py ", ")
    (items.map fun kv => py "(" ++ o.reprKey kv.1 ++ py ", " ++ o.reprValue kv.2 ++ py ")") ++ py "]"

/-- The text of a `UnicodeEncodeError`, which names the place, is left out. -/
def manifestDigest (records : List (Record V K)) : Except Exc PyStr := do
  let items ← validateManifest o records
  let texts ← items.mapM fun item => (sortedItems o item.items).map (strItems o)
  let canonical := List.intercalate (py "\n") (texts.insertionSort fun a b => keyLe a b)
  match encodeUtf8 canonical with
  | some data => return sha256 data
  | none => throw ⟨.other (py "UnicodeEncodeError"), []⟩

/-! ## What is accepted -/

/-- The checks that look at one record. -/
structure FieldsOk (record : Record V K) : Prop where
  present : ∀ key ∈ requiredFields, (record.get? (.str (py key))).isSome = true
  digest : ∃ digest, fieldText record "sha256" = some digest ∧ digest.length = 64 ∧
    ∀ char ∈ digest, char ∈ py "0123456789abcdef"
  split : ∃ split ∈ [py "train", py "validation", py "test"], fieldText record "split" = some split
  label : ∃ v, record.get? (.str (py "label")) = some v ∧ isLabel o v = true

/-- The hash of a record with its split. -/
def hashPair (record : Record V K) : Option (PyStr × PyStr) :=
  match fieldText record "sha256", fieldText record "split" with
  | some digest, some split => some (digest, split)
  | _, _ => none

/-- The family of a record with its split, where it has one. -/
def familyPair (record : Record V K) : Option (PyStr × PyStr) :=
  match familyOf record, fieldText record "split" with
  | some family, some split => some (family, split)
  | _, _ => none

/-- The dictionaries hold what the records read so far say. -/
structure Seen.Holds (seen : Seen) (read : List (Record V K)) : Prop where
  hashes : Recorded seen.hashes (read.filterMap hashPair)
  families : Recorded seen.families (read.filterMap familyPair)

variable {o}

theorem checkFields_ok {record : Record V K} :
    checkFields record = .ok () ↔
      ∀ key ∈ requiredFields, (record.get? (.str (py key))).isSome = true := by
  constructor
  · intro h key hkey
    have := forM_ok h key hkey
    split at this
    · next hsome => exact hsome
    · cases this
  · intro h
    refine forM_ok_of_forall ?_
    intro key hkey
    rw [if_pos (h key hkey)]

theorem checkDigest_ok {record : Record V K} {digest : PyStr} :
    checkDigest record = .ok digest ↔ fieldText record "sha256" = some digest ∧ digest.length = 64 ∧
      ∀ char ∈ digest, char ∈ py "0123456789abcdef" := by
  unfold checkDigest
  cases htext : fieldText record "sha256" with
  | none => simp
  | some s =>
      simp only [Option.some.injEq]
      split
      · next hbad =>
          refine iff_of_false nofun ?_
          rintro ⟨rfl, hlen, hhex⟩
          rcases hbad with hbad | hbad
          · exact hbad hlen
          · obtain ⟨char, hchar, hnot⟩ := List.any_eq_true.1 hbad
            simp [hhex char hchar] at hnot
      · next hgood =>
          rw [not_or, not_not, Bool.not_eq_true, List.any_eq_false] at hgood
          constructor
          · rintro h
            cases h
            exact ⟨rfl, hgood.1, fun char hchar => by simpa using hgood.2 char hchar⟩
          · rintro ⟨rfl, -, -⟩
            rfl

theorem checkSplit_ok {record : Record V K} {split : PyStr} :
    checkSplit record = .ok split ↔
      split ∈ [py "train", py "validation", py "test"] ∧ fieldText record "split" = some split := by
  unfold checkSplit
  cases htext : fieldText record "split" with
  | none => simp
  | some s =>
      simp only [Option.some.injEq]
      split
      · next hmem =>
          rw [List.contains_iff_mem] at hmem
          constructor
          · rintro h
            cases h
            exact ⟨hmem, rfl⟩
          · rintro ⟨-, rfl⟩
            rfl
      · next hmem =>
          rw [List.contains_iff_mem] at hmem
          refine iff_of_false nofun ?_
          rintro ⟨h, rfl⟩
          exact hmem h

theorem checkLabel_ok {record : Record V K} :
    checkLabel o record = .ok () ↔
      ∃ v, record.get? (.str (py "label")) = some v ∧ isLabel o v = true := by
  unfold checkLabel
  cases record.get? (.str (py "label")) with
  | none => exact iff_of_false nofun fun ⟨_, h, _⟩ => nomatch h
  | some v =>
      simp only [Option.some.injEq, exists_eq_left']
      split
      · next hlabel => exact iff_of_true rfl hlabel
      · next hlabel => exact iff_of_false nofun hlabel

/-- The pairs of one more record. -/
theorem filterMap_cons_toList {α β : Type} (f : α → Option β) (x : α) (xs : List α) :
    (x :: xs).filterMap f = (f x).toList ++ xs.filterMap f := by
  cases h : f x <;> simp [h]

/-- One record accepted: its fields are in order, and what is remembered covers it. -/
theorem checkRecord_ok {seen seen' : Seen} {read : List (Record V K)} {record : Record V K}
    (hseen : seen.Holds read) (h : checkRecord o seen record = .ok seen') :
    FieldsOk o record ∧ seen'.Holds (record :: read) := by
  obtain ⟨_, hfields, h⟩ := bind_ok.1 h
  obtain ⟨digest, hdigest, h⟩ := bind_ok.1 h
  obtain ⟨split, hsplit, h⟩ := bind_ok.1 h
  obtain ⟨hashes, hhashes, h⟩ := bind_ok.1 h
  obtain ⟨families, hfamilies, h⟩ := bind_ok.1 h
  obtain ⟨_, hlabel, h⟩ := bind_ok.1 h
  obtain rfl := Except.ok.inj h
  rw [checkDigest_ok] at hdigest
  rw [checkSplit_ok] at hsplit
  refine ⟨⟨checkFields_ok.1 hfields, ⟨digest, hdigest⟩, ⟨split, hsplit⟩, checkLabel_ok.1 hlabel⟩,
    ?_, ?_⟩
  · rw [filterMap_cons_toList, hashPair, hdigest.1, hsplit.2]
    exact hseen.hashes.note hhashes
  · rw [filterMap_cons_toList, familyPair, hsplit.2]
    cases hfamily : familyOf record with
    | none =>
        rw [hfamily] at hfamilies
        obtain rfl := Except.ok.inj hfamilies
        exact hseen.families
    | some family =>
        rw [hfamily] at hfamilies
        exact hseen.families.note hfamilies

/-- A record whose fields are in order is accepted where it agrees with those read before. -/
theorem checkRecord_of_functional {seen : Seen} {read : List (Record V K)} {record : Record V K}
    (hseen : seen.Holds read) (hfields : FieldsOk o record)
    (hhashes : Functional ((record :: read).filterMap hashPair))
    (hfamilies : Functional ((record :: read).filterMap familyPair)) :
    ∃ seen', checkRecord o seen record = .ok seen' := by
  obtain ⟨digest, hdigest⟩ := hfields.digest
  obtain ⟨split, hsplit⟩ := hfields.split
  rw [filterMap_cons_toList, hashPair, hdigest.1, hsplit.2] at hhashes
  obtain ⟨hashes, hnoted⟩ := hseen.hashes.note_of_functional
    (datasetManifestError "identical sample hash appears in multiple splits") hhashes
  obtain ⟨families, hfamily⟩ :
      ∃ families, noteFamily seen.families split (familyOf record) = .ok families := by
    rw [filterMap_cons_toList, familyPair, hsplit.2] at hfamilies
    cases hf : familyOf record with
    | none => exact ⟨_, rfl⟩
    | some family =>
        rw [hf] at hfamilies
        exact hseen.families.note_of_functional _ hfamilies
  exact ⟨⟨hashes, families⟩, bind_ok.2 ⟨(), checkFields_ok.2 hfields.present,
    bind_ok.2 ⟨digest, checkDigest_ok.2 hdigest, bind_ok.2 ⟨split, checkSplit_ok.2 hsplit,
      bind_ok.2 ⟨hashes, hnoted, bind_ok.2 ⟨families, hfamily,
        bind_ok.2 ⟨(), checkLabel_ok.2 hfields.label, rfl⟩⟩⟩⟩⟩⟩⟩

/-- The scan returns exactly if every record is in order and nothing it has read disagrees. -/
theorem foldlM_checkRecord_isOk {records : List (Record V K)} :
    ∀ {seen : Seen} {read : List (Record V K)}, seen.Holds read →
      ((∃ seen', records.foldlM (checkRecord o) seen = .ok seen') ↔
        (∀ record ∈ records, FieldsOk o record) ∧
          Functional ((records.reverse ++ read).filterMap hashPair) ∧
          Functional ((records.reverse ++ read).filterMap familyPair)) := by
  induction records with
  | nil =>
      intro seen read hseen
      exact iff_of_true ⟨seen, rfl⟩
        ⟨(fun _ h => nomatch h), hseen.hashes.functional, hseen.families.functional⟩
  | cons record records ih =>
      intro seen read hseen
      have hsplit : (record :: records).reverse ++ read = records.reverse ++ record :: read := by simp
      rw [hsplit, List.forall_mem_cons]
      constructor
      · rintro ⟨seen', h⟩
        rw [List.foldlM_cons] at h
        obtain ⟨next, hnext, h⟩ := bind_ok.1 h
        obtain ⟨hfields, hholds⟩ := checkRecord_ok hseen hnext
        obtain ⟨hrest, hpairs⟩ := (ih hholds).1 ⟨seen', h⟩
        exact ⟨⟨hfields, hrest⟩, hpairs.1, hpairs.2⟩
      · rintro ⟨⟨hfields, hrest⟩, hhashes, hfamilies⟩
        have hsub : record :: read ⊆ records.reverse ++ record :: read :=
          List.subset_append_right ..
        obtain ⟨next, hnext⟩ := checkRecord_of_functional hseen hfields
          (hhashes.mono (List.filterMap_subset _ hsub))
          (hfamilies.mono (List.filterMap_subset _ hsub))
        obtain ⟨seen', hseen'⟩ :=
          (ih (checkRecord_ok hseen hnext).2).2 ⟨hrest, hhashes, hfamilies⟩
        rw [List.foldlM_cons]
        exact ⟨seen', bind_ok.2 ⟨next, hnext, hseen'⟩⟩

theorem fieldText_eq_some {record : Record V K} {key : String} {s : PyStr} :
    fieldText record key = some s ↔ record.get? (.str (py key)) = some (.str s) := by
  unfold fieldText
  split
  · next t ht => rw [ht]; simp
  · next hne => exact iff_of_false nofun fun h => hne s h

theorem familyOf_eq_some {record : Record V K} {family : PyStr} :
    familyOf record = some family ↔
      record.get? (.str (py "family")) = some (.str family) ∧ family ≠ [] := by
  rw [familyOf, Option.filter_eq_some_iff, fieldText_eq_some, bne_iff_ne]

theorem mem_hashPairs {records : List (Record V K)} {digest split : PyStr} :
    (digest, split) ∈ records.filterMap hashPair ↔ ∃ record ∈ records,
      record.get? (.str (py "sha256")) = some (.str digest) ∧
        record.get? (.str (py "split")) = some (.str split) := by
  simp only [List.mem_filterMap, ← fieldText_eq_some, hashPair]
  refine exists_congr fun record => and_congr_right fun _ => ?_
  cases fieldText record "sha256" <;> cases fieldText record "split" <;> simp

theorem mem_familyPairs {records : List (Record V K)} {family split : PyStr} :
    (family, split) ∈ records.filterMap familyPair ↔ ∃ record ∈ records,
      (record.get? (.str (py "family")) = some (.str family) ∧ family ≠ []) ∧
        record.get? (.str (py "split")) = some (.str split) := by
  simp only [List.mem_filterMap, ← familyOf_eq_some]
  simp only [← fieldText_eq_some, familyPair]
  refine exists_congr fun record => and_congr_right fun _ => ?_
  cases familyOf record <;> cases fieldText record "split" <;> simp

/-- No hash and no family is in two splits. -/
structure NoLeakage (records : List (Record V K)) : Prop where
  hashes : ∀ r ∈ records, ∀ r' ∈ records,
    r.get? (.str (py "sha256")) = r'.get? (.str (py "sha256")) →
      r.get? (.str (py "split")) = r'.get? (.str (py "split"))
  families : ∀ r ∈ records, ∀ r' ∈ records, ∀ family ≠ [],
    r.get? (.str (py "family")) = some (.str family) →
      r'.get? (.str (py "family")) = some (.str family) →
        r.get? (.str (py "split")) = r'.get? (.str (py "split"))

theorem FieldsOk.get_sha256 {record : Record V K} (h : FieldsOk o record) :
    ∃ digest, record.get? (.str (py "sha256")) = some (.str digest) := by
  obtain ⟨digest, hdigest, -⟩ := h.digest
  exact ⟨digest, fieldText_eq_some.1 hdigest⟩

theorem FieldsOk.get_split {record : Record V K} (h : FieldsOk o record) :
    ∃ split, record.get? (.str (py "split")) = some (.str split) := by
  obtain ⟨split, -, hsplit⟩ := h.split
  exact ⟨split, fieldText_eq_some.1 hsplit⟩

theorem noLeakage_iff {records : List (Record V K)} (hfields : ∀ r ∈ records, FieldsOk o r) :
    NoLeakage records ↔
      Functional (records.filterMap hashPair) ∧ Functional (records.filterMap familyPair) := by
  constructor
  · intro h
    constructor
    · rintro ⟨digest, split⟩ hp ⟨digest', split'⟩ hq rfl
      obtain ⟨r, hr, hsha, hsplit⟩ := mem_hashPairs.1 hp
      obtain ⟨r', hr', hsha', hsplit'⟩ := mem_hashPairs.1 hq
      have := h.hashes r hr r' hr' (hsha.trans hsha'.symm)
      rw [hsplit, hsplit'] at this
      simpa using this
    · rintro ⟨family, split⟩ hp ⟨family', split'⟩ hq rfl
      obtain ⟨r, hr, ⟨hfam, hne⟩, hsplit⟩ := mem_familyPairs.1 hp
      obtain ⟨r', hr', ⟨hfam', -⟩, hsplit'⟩ := mem_familyPairs.1 hq
      have := h.families r hr r' hr' _ hne hfam hfam'
      rw [hsplit, hsplit'] at this
      simpa using this
  · rintro ⟨hhashes, hfamilies⟩
    constructor
    · intro r hr r' hr' hsame
      obtain ⟨digest, hdigest⟩ := (hfields r hr).get_sha256
      obtain ⟨split, hsplit⟩ := (hfields r hr).get_split
      obtain ⟨split', hsplit'⟩ := (hfields r' hr').get_split
      have hdigest' := hsame.symm.trans hdigest
      have hsplits : split = split' := hhashes _ (mem_hashPairs.2 ⟨r, hr, hdigest, hsplit⟩) _
        (mem_hashPairs.2 ⟨r', hr', hdigest', hsplit'⟩) rfl
      rw [hsplit, hsplit', hsplits]
    · intro r hr r' hr' family hne hfam hfam'
      obtain ⟨split, hsplit⟩ := (hfields r hr).get_split
      obtain ⟨split', hsplit'⟩ := (hfields r' hr').get_split
      have hsplits : split = split' :=
        hfamilies _ (mem_familyPairs.2 ⟨r, hr, ⟨hfam, hne⟩, hsplit⟩) _
          (mem_familyPairs.2 ⟨r', hr', ⟨hfam', hne⟩, hsplit'⟩) rfl
      rw [hsplit, hsplit', hsplits]

/-- A manifest is accepted exactly if its fields are in order and nothing is in two splits. -/
theorem validateManifest_isOk {records : List (Record V K)} :
    (∃ items, validateManifest o records = .ok items) ↔
      (∀ r ∈ records, FieldsOk o r) ∧ NoLeakage records := by
  have hempty : Seen.Holds ⟨Dict.empty, Dict.empty⟩ ([] : List (Record V K)) :=
    ⟨Recorded.empty, Recorded.empty⟩
  have hsub : records.reverse ++ [] ⊆ records ∧ records ⊆ records.reverse ++ [] := by
    simp [List.subset_def]
  have hscan : (∃ items, validateManifest o records = .ok items) ↔
      ∃ seen, records.foldlM (checkRecord o) ⟨Dict.empty, Dict.empty⟩ = .ok seen := by
    constructor
    · rintro ⟨items, h⟩
      obtain ⟨seen, hseen, -⟩ := bind_ok.1 h
      exact ⟨seen, hseen⟩
    · rintro ⟨seen, hseen⟩
      exact ⟨records, bind_ok.2 ⟨seen, hseen, rfl⟩⟩
  rw [hscan, foldlM_checkRecord_isOk hempty]
  refine and_congr_right fun hfields => ?_
  rw [noLeakage_iff hfields]
  constructor
  · exact fun h => ⟨h.1.mono (List.filterMap_subset _ hsub.2), h.2.mono (List.filterMap_subset _ hsub.2)⟩
  · exact fun h => ⟨h.1.mono (List.filterMap_subset _ hsub.1), h.2.mono (List.filterMap_subset _ hsub.1)⟩

/-- A permuted manifest has the same fields and the same pairs. -/
theorem validateManifest_perm {records records' : List (Record V K)} (h : records.Perm records') :
    (∃ items, validateManifest o records = .ok items) ↔
      ∃ items, validateManifest o records' = .ok items := by
  have key : ∀ {rs rs' : List (Record V K)}, rs' ⊆ rs →
      (∀ r ∈ rs, FieldsOk o r) ∧ NoLeakage rs → (∀ r ∈ rs', FieldsOk o r) ∧ NoLeakage rs' := by
    rintro rs rs' hsub ⟨hfields, hleak⟩
    exact ⟨fun r hr => hfields r (hsub hr),
      fun r hr r' hr' => hleak.hashes r (hsub hr) r' (hsub hr'),
      fun r hr r' hr' => hleak.families r (hsub hr) r' (hsub hr')⟩
  rw [validateManifest_isOk, validateManifest_isOk]
  exact ⟨key h.symm.subset, key h.subset⟩

theorem validateManifest_eq {records items : List (Record V K)}
    (h : validateManifest o records = .ok items) : items = records := by
  obtain ⟨_, -, h⟩ := bind_ok.1 h
  exact (Except.ok.inj h).symm

/-- Sorting forgets the order of the texts. -/
theorem insertionSort_keyLe_perm {xs ys : List PyStr} (h : xs.Perm ys) :
    xs.insertionSort (fun a b => keyLe a b) = ys.insertionSort fun a b => keyLe a b := by
  have hsorted : ∀ zs : List PyStr,
      (zs.insertionSort fun a b => keyLe a b).Pairwise fun a b => keyLe a b = true := fun zs =>
    pairwise_insertionSort (fun a _ b _ => keyLe_total a b) fun _ _ _ _ _ _ => keyLe_trans
  refine List.Perm.eq_of_pairwise ?_ (hsorted xs) (hsorted ys) ?_
  · exact fun a b _ _ hab hba => keyLe_antisymm hab hba
  · exact (List.perm_insertionSort _ xs).trans (h.trans (List.perm_insertionSort _ ys).symm)

/-- Every key of the record is a string. -/
def StringKeys (record : Record V K) : Prop := ∀ kv ∈ record.items, kv.1.text?.isSome = true

/-- With string keys, each record has its text. -/
theorem mapM_strItems {records : List (Record V K)} (h : ∀ r ∈ records, StringKeys r) :
    records.mapM (fun item => (sortedItems o item.items).map (strItems o)) =
      .ok (records.map fun item => strItems o (item.items.insertionSort fun a b =>
        keyLe (a.1.text?.getD []) (b.1.text?.getD []))) := by
  induction records with
  | nil => rfl
  | cons r records ih =>
      obtain ⟨hr, hrest⟩ := List.forall_mem_cons.1 h
      rw [List.mapM_cons, ih hrest, sortedItems, if_pos (List.all_eq_true.2 hr)]
      rfl

/-- **No hash and no family of an accepted manifest is in two splits**, and that with the checks of the
    fields is all that is asked: neither the verdict nor the digest depends on the order. -/
theorem no_split_leakage (o : Objects V K) (records : List (Record V K)) :
    ((∃ items, validateManifest o records = .ok items) ↔
      (∀ r ∈ records, FieldsOk o r) ∧ NoLeakage records) ∧
    ∀ records', records.Perm records' →
      ((∃ items, validateManifest o records = .ok items) ↔
        ∃ items, validateManifest o records' = .ok items) ∧
      ((∃ items, validateManifest o records = .ok items) → (∀ r ∈ records, StringKeys r) →
        manifestDigest o records = manifestDigest o records') := by
  refine ⟨validateManifest_isOk, ?_⟩
  intro records' hperm
  refine ⟨validateManifest_perm hperm, ?_⟩
  rintro ⟨items, hitems⟩ hkeys
  obtain ⟨items', hitems'⟩ := (validateManifest_perm hperm).1 ⟨items, hitems⟩
  have hkeys' : ∀ r ∈ records', StringKeys r := fun r hr => hkeys r (hperm.mem_iff.2 hr)
  rw [manifestDigest, manifestDigest, hitems, hitems', validateManifest_eq hitems,
    validateManifest_eq hitems']
  simp only [bind, Except.bind]
  rw [mapM_strItems hkeys, mapM_strItems hkeys']
  simp only
  rw [insertionSort_keyLe_perm (hperm.map _)]

end Validate

end Elyra.Measurement
