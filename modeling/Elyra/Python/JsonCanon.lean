import Elyra.Python.JsonRoundTrip

set_option autoImplicit false

/-! # Canonical form of a JSON value

Two dictionaries are equal in Python when they hold the same members in any order. `Json.sortKeys`
picks one representative, and this file shows what the hash chain needs of it: sorting keeps a value
well-formed and encodable, is determined by the members alone (`sortMembers_eq_of_perm`), and does
not change what `get` returns. It also shows that `loads` only builds dictionaries without repeated
keys, and that a text printed on one line has no control characters. -/

namespace Elyra.Python

variable {F : Type}

/-! ## Key order -/

theorem keyLe_total (a b : PyStr) : keyLe a b = true ∨ keyLe b a = true := by
  induction a generalizing b with
  | nil => exact Or.inl rfl
  | cons x a ih =>
      cases b with
      | nil => exact Or.inr rfl
      | cons y b =>
          simp only [keyLe]
          rcases Nat.lt_trichotomy x y with h | h | h
          · exact Or.inl (by simp [h])
          · subst h
            simpa using ih b
          · exact Or.inr (by simp [h])

theorem keyLe_trans {a b c : PyStr} (h₁ : keyLe a b = true) (h₂ : keyLe b c = true) :
    keyLe a c = true := by
  induction a generalizing b c with
  | nil => rfl
  | cons x a ih =>
      cases b with
      | nil => exact absurd h₁ (by simp [keyLe])
      | cons y b =>
          cases c with
          | nil => exact absurd h₂ (by simp [keyLe])
          | cons z c =>
              simp only [keyLe] at h₁ h₂ ⊢
              split at h₁
              · split at h₂
                · rw [if_pos (by omega)]
                · split at h₂
                  · exact absurd h₂ (by simp)
                  · rw [if_pos (by omega)]
              · split at h₁
                · exact absurd h₁ (by simp)
                · split at h₂
                  · rw [if_pos (by omega)]
                  · split at h₂
                    · exact absurd h₂ (by simp)
                    · rw [if_neg (by omega), if_neg (by omega)]
                      exact ih h₁ h₂

theorem keyLe_antisymm {a b : PyStr} (h₁ : keyLe a b = true) (h₂ : keyLe b a = true) : a = b := by
  induction a generalizing b with
  | nil =>
      cases b with
      | nil => rfl
      | cons y b => exact absurd h₂ (by simp [keyLe])
  | cons x a ih =>
      cases b with
      | nil => exact absurd h₁ (by simp [keyLe])
      | cons y b =>
          simp only [keyLe] at h₁ h₂
          rcases Nat.lt_trichotomy x y with h | h | h
          · rw [if_neg (by omega), if_pos h] at h₂
            exact absurd h₂ (by simp)
          · subst h
            simp only [lt_irrefl, if_false] at h₁ h₂
            rw [ih h₁ h₂]
          · rw [if_neg (by omega), if_pos h] at h₁
            exact absurd h₁ (by simp)

/-! ## Sorted members -/

theorem insertMember_perm (kv : PyStr × Json F) (kvs : List (PyStr × Json F)) :
    (insertMember kv kvs).Perm (kv :: kvs) := by
  induction kvs with
  | nil => exact List.Perm.refl _
  | cons kv' kvs ih =>
      simp only [insertMember]
      split
      · exact List.Perm.refl _
      · exact (ih.cons kv').trans (List.Perm.swap ..)

theorem sortMembers_perm (kvs : List (PyStr × Json F)) : (sortMembers kvs).Perm kvs := by
  induction kvs with
  | nil => exact List.Perm.refl _
  | cons kv kvs ih => exact (insertMember_perm kv _).trans (ih.cons kv)

/-- Members in key order. -/
def MembersSorted (kvs : List (PyStr × Json F)) : Prop :=
  kvs.Pairwise (fun a b => keyLe a.1 b.1 = true)

theorem insertMember_sorted (kv : PyStr × Json F) {kvs : List (PyStr × Json F)}
    (h : MembersSorted kvs) : MembersSorted (insertMember kv kvs) := by
  induction kvs with
  | nil => exact List.pairwise_singleton _ _
  | cons kv' kvs ih =>
      obtain ⟨hhead, htail⟩ := List.pairwise_cons.1 h
      simp only [insertMember]
      split
      · next hle =>
        refine List.pairwise_cons.2 ⟨?_, h⟩
        intro b hb
        rcases List.mem_cons.1 hb with rfl | hb
        · exact hle
        · exact keyLe_trans hle (hhead b hb)
      · next hle =>
        refine List.pairwise_cons.2 ⟨?_, ih htail⟩
        intro b hb
        rcases List.mem_cons.1 ((insertMember_perm kv kvs).mem_iff.1 hb) with rfl | hb
        · exact (keyLe_total kv'.1 b.1).resolve_right hle
        · exact hhead b hb

theorem sortMembers_sorted (kvs : List (PyStr × Json F)) : MembersSorted (sortMembers kvs) := by
  induction kvs with
  | nil => exact List.Pairwise.nil
  | cons kv kvs ih => exact insertMember_sorted kv ih

/-- The sorted list of members depends on the members only, not on their order. -/
theorem sortMembers_eq_of_perm {kvs kvs' : List (PyStr × Json F)}
    (hnd : (kvs.map Prod.fst).Nodup) (h : kvs.Perm kvs') : sortMembers kvs = sortMembers kvs' := by
  have hp : (sortMembers kvs).Perm (sortMembers kvs') :=
    (sortMembers_perm kvs).trans (h.trans (sortMembers_perm kvs').symm)
  refine hp.eq_of_pairwise ?_ (sortMembers_sorted kvs) (sortMembers_sorted kvs')
  intro a b ha hb hab hba
  have ha' := (sortMembers_perm kvs).mem_iff.1 ha
  have hb' := h.mem_iff.2 ((sortMembers_perm kvs').mem_iff.1 hb)
  exact List.inj_on_of_nodup_map hnd ha' hb' (keyLe_antisymm hab hba)

/-! ## Sorting a whole value -/

theorem remove_wf {k : PyStr} {kvs : List (PyStr × Json F)} (h : (Json.obj kvs).WF) :
    (Json.obj (remove k kvs)).WF := by
  refine ⟨((remove_sublist k kvs).map Prod.fst).nodup h.1, wfMembers_iff.2 ?_⟩
  intro kv hkv
  exact wfMembers_iff.1 h.2 kv ((remove_sublist k kvs).subset hkv)

theorem sortKeysList_eq (xs : List (Json F)) : sortKeysList xs = xs.map Json.sortKeys := by
  induction xs with
  | nil => rfl
  | cons x xs ih => simp [sortKeysList, ih]

theorem sortKeysMembers_eq (kvs : List (PyStr × Json F)) :
    sortKeysMembers kvs = kvs.map (fun kv => (kv.1, kv.2.sortKeys)) := by
  induction kvs with
  | nil => rfl
  | cons kv kvs ih => simp [sortKeysMembers, ih]

theorem sortKeysMembers_keys (kvs : List (PyStr × Json F)) :
    (sortKeysMembers kvs).map Prod.fst = kvs.map Prod.fst := by
  simp [sortKeysMembers_eq, Function.comp_def]

theorem sortKeys_wf (v : Json F) (h : v.WF) : v.sortKeys.WF := by
  induction v using Json.inductOn with
  | null => trivial
  | bool b => trivial
  | int n => trivial
  | float f => trivial
  | str s => trivial
  | arr xs ih =>
      have h' := wfList_iff.1 h
      simp only [Json.sortKeys, sortKeysList_eq]
      refine wfList_iff.2 ?_
      intro x hx
      obtain ⟨y, hy, rfl⟩ := List.mem_map.1 hx
      exact ih y hy (h' y hy)
  | obj kvs ih =>
      have h' := wfMembers_iff.1 h.2
      have hp := sortMembers_perm (sortKeysMembers kvs)
      simp only [Json.sortKeys]
      refine ⟨?_, wfMembers_iff.2 ?_⟩
      · rw [(hp.map Prod.fst).nodup_iff, sortKeysMembers_keys]
        exact h.1
      · intro kv hkv
        have hkv' := hp.mem_iff.1 hkv
        rw [sortKeysMembers_eq] at hkv'
        obtain ⟨y, hy, rfl⟩ := List.mem_map.1 hkv'
        exact ih y hy (h' y hy)

/-- `get` on the sorted value of a dictionary is `get` on the dictionary, sorted. -/
theorem lookup_sortKeys {kvs : List (PyStr × Json F)} (hnd : (kvs.map Prod.fst).Nodup)
    (k : PyStr) : lookup k (sortMembers (sortKeysMembers kvs)) = (lookup k kvs).map Json.sortKeys := by
  have hnd' : ((sortKeysMembers kvs).map Prod.fst).Nodup := by
    rw [sortKeysMembers_keys]
    exact hnd
  rw [← lookup_perm hnd' (sortMembers_perm _).symm]
  rw [sortKeysMembers_eq]
  clear hnd hnd'
  induction kvs with
  | nil => rfl
  | cons kv kvs ih =>
      obtain ⟨k', v⟩ := kv
      simp only [List.map_cons, lookup]
      split
      · rfl
      · exact ih

/-! ## Sorting twice -/

theorem insertMember_map {f : Json F → Json F} (kv : PyStr × Json F)
    (kvs : List (PyStr × Json F)) :
    insertMember (kv.1, f kv.2) (kvs.map fun kv => (kv.1, f kv.2)) =
      (insertMember kv kvs).map fun kv => (kv.1, f kv.2) := by
  induction kvs with
  | nil => rfl
  | cons kv' kvs ih =>
      simp only [List.map_cons, insertMember]
      split
      · rfl
      · rw [ih, List.map_cons]

theorem sortMembers_map (f : Json F → Json F) (kvs : List (PyStr × Json F)) :
    sortMembers (kvs.map fun kv => (kv.1, f kv.2)) =
      (sortMembers kvs).map fun kv => (kv.1, f kv.2) := by
  induction kvs with
  | nil => rfl
  | cons kv kvs ih => rw [List.map_cons, sortMembers, ih, insertMember_map, sortMembers]

theorem sortMembers_of_sorted {kvs : List (PyStr × Json F)} (h : MembersSorted kvs) :
    sortMembers kvs = kvs := by
  induction kvs with
  | nil => rfl
  | cons kv kvs ih =>
      obtain ⟨hhead, htail⟩ := List.pairwise_cons.1 h
      rw [sortMembers, ih htail]
      cases kvs with
      | nil => rfl
      | cons kv' kvs => rw [insertMember, if_pos (hhead kv' (List.mem_cons_self ..))]

theorem sortKeys_sortKeys (v : Json F) : v.sortKeys.sortKeys = v.sortKeys := by
  induction v using Json.inductOn with
  | null => rfl
  | bool b => rfl
  | int n => rfl
  | float f => rfl
  | str s => rfl
  | arr xs ih =>
      simp only [Json.sortKeys, sortKeysList_eq, List.map_map, Json.arr.injEq]
      exact List.map_congr_left ih
  | obj kvs ih =>
      simp only [Json.sortKeys, sortKeysMembers_eq, Json.obj.injEq]
      rw [← sortMembers_map, sortMembers_of_sorted (sortMembers_sorted _), List.map_map]
      congr 1
      refine List.map_congr_left ?_
      intro kv hkv
      exact congrArg (Prod.mk kv.1) (ih kv hkv)

/-- Two dictionaries that agree on one member, and whose other members are equal up to order, are
    equal up to order. -/
theorem sortKeys_eq_of_remove {k : PyStr} {v : Json F} {kvs kvs' : List (PyStr × Json F)}
    (hnd : (kvs.map Prod.fst).Nodup) (hv : lookup k kvs = some v) (hv' : lookup k kvs' = some v)
    (h : (Json.obj (remove k kvs)).sortKeys = (Json.obj (remove k kvs')).sortKeys) :
    (Json.obj kvs).sortKeys = (Json.obj kvs').sortKeys := by
  simp only [Json.sortKeys, Json.obj.injEq, sortKeysMembers_eq] at h ⊢
  set f : PyStr × Json F → PyStr × Json F := fun kv => (kv.1, kv.2.sortKeys) with hf
  have hrest : ((remove k kvs).map f).Perm ((remove k kvs').map f) :=
    (sortMembers_perm _).symm.trans (h ▸ sortMembers_perm _)
  refine sortMembers_eq_of_perm ?_ ?_
  · rw [List.map_map]
    exact hnd
  · calc (kvs.map f).Perm (((k, v) :: remove k kvs).map f) := (remove_perm hv).map f
      List.Perm _ (((k, v) :: remove k kvs').map f) := by
        simpa only [List.map_cons] using hrest.cons (f (k, v))
      List.Perm _ (kvs'.map f) := ((remove_perm hv').map f).symm

section Encode

variable [PyFloat F]

/-- Sorting changes neither the numbers nor the floats a value holds. -/
theorem encodable_sortKeys (b : Bool) (v : Json F) :
    v.sortKeys.encodable b = true ↔ v.encodable b = true := by
  induction v using Json.inductOn with
  | null => rfl
  | bool b => rfl
  | int n => rfl
  | float f => rfl
  | str s => rfl
  | arr xs ih =>
      simp only [Json.sortKeys, sortKeysList_eq, Json.encodable, encodableList_iff,
        List.forall_mem_map]
      exact forall₂_congr ih
  | obj kvs ih =>
      simp only [Json.sortKeys, sortKeysMembers_eq, Json.encodable, encodableMembers_iff,
        (sortMembers_perm _).mem_iff, List.forall_mem_map]
      exact forall₂_congr ih

/-- **Canonical encodings are injective**: values with the same `sort_keys` text are equal as
    dictionaries. -/
theorem dumpsSorted_injective {st : Layout} {b : Bool} {v w : Json F} {t : PyStr} (hv : v.WF)
    (hw : w.WF) (h₁ : dumpsSorted st b v = some t) (h₂ : dumpsSorted st b w = some t) :
    v.sortKeys = w.sortKeys :=
  dumps_injective (sortKeys_wf v hv) (sortKeys_wf w hw) h₁ h₂

/-- The canonical encoding only depends on the canonical value. -/
theorem dumpsSorted_congr {st : Layout} {b : Bool} {v w : Json F} (h : v.sortKeys = w.sortKeys) :
    dumpsSorted st b v = dumpsSorted st b w := by
  simp only [dumpsSorted, h]

/-- The text of an object starts with a brace. -/
theorem dumps_obj_head {st : Layout} {b : Bool} {kvs : List (PyStr × Json F)} {t : PyStr}
    (h : dumps st b (.obj kvs) = some t) : ∃ s, t = 123 :: s := by
  obtain ⟨-, rfl⟩ := encodable_of_dumps h
  cases kvs with
  | nil => exact ⟨_, rfl⟩
  | cons kv kvs => exact ⟨_, rfl⟩

end Encode

/-! ## `loads` builds dictionaries -/

theorem dictOf_wf {kvs : List (PyStr × Json F)} (h : ∀ kv ∈ kvs, kv.2.WF) :
    (Json.obj (dictOf kvs)).WF := by
  obtain ⟨h1, h2⟩ := dictOf_spec kvs
  exact ⟨h1, wfMembers_iff.2 (fun kv hkv => h kv (h2 kv hkv))⟩

section Loads

variable [PyFloat F]

theorem numberValue_wf {t : NumberToken} {v : Json F} (h : t.value = .ok v) : v.WF := by
  unfold NumberToken.value at h
  split at h
  · split at h
    · exact absurd h (by simp)
    · simp only [Except.ok.injEq] at h
      subst h
      trivial
  · simp only [Except.ok.injEq] at h
    subst h
    trivial

theorem parseScalar_wf {s : PyStr} {v : Json F} {r : PyStr} (h : parseScalar s = .ok (v, r)) :
    v.WF := by
  unfold parseScalar at h
  split at h
  · simp only [Except.ok.injEq, Prod.mk.injEq] at h
    obtain ⟨rfl, -⟩ := h
    trivial
  · simp only [Except.ok.injEq, Prod.mk.injEq] at h
    obtain ⟨rfl, -⟩ := h
    trivial
  · simp only [Except.ok.injEq, Prod.mk.injEq] at h
    obtain ⟨rfl, -⟩ := h
    trivial
  · split at h
    · next t _ =>
      cases hv : t.value (F := F) with
      | error e => simp [hv, Except.map] at h
      | ok w =>
          simp only [hv, Except.map, Except.ok.injEq, Prod.mk.injEq] at h
          exact h.1 ▸ numberValue_wf hv
    · split at h
      · simp only [Except.ok.injEq, Prod.mk.injEq] at h
        exact h.1 ▸ trivial
      · simp only [Except.ok.injEq, Prod.mk.injEq] at h
        exact h.1 ▸ trivial
      · simp only [Except.ok.injEq, Prod.mk.injEq] at h
        exact h.1 ▸ trivial
      · exact absurd h (by simp)

/-- What holds of every scalar and string, and of every container of values it holds of, holds of
    everything the three parsers build, by induction on the fuel. -/
theorem parse_forall {P : Json F → Prop}
    (hscalar : ∀ s v r, parseScalar s = .ok (v, r) → P v) (hstr : ∀ t, P (.str t))
    (harr : ∀ xs, (∀ x ∈ xs, P x) → P (.arr xs))
    (hobj : ∀ kvs, (∀ kv ∈ kvs, P kv.2) → P (.obj (dictOf kvs))) (fuel : Nat) :
    (∀ s v r, parseValue fuel s = .ok (v, r) → P v) ∧
    (∀ s vs r, parseItems fuel s = .ok (vs, r) → ∀ v ∈ vs, P v) ∧
    (∀ s kvs r, parseMembers fuel s = .ok (kvs, r) → ∀ kv ∈ kvs, P kv.2) := by
  induction fuel with
  | zero => exact ⟨fun _ _ _ h => (nomatch h), fun _ _ _ h => (nomatch h), fun _ _ _ h => (nomatch h)⟩
  | succ fuel ih =>
      obtain ⟨ihv, ihi, ihm⟩ := ih
      refine ⟨fun s v r h => ?_, fun s vs r h => ?_, fun s kvs r h => ?_⟩
      · cases s with
        | nil => cases h
        | cons c s =>
            rw [parseValue_cons] at h
            split_ifs at h
            · cases hk : scanString s with
              | none =>
                  rw [hk] at h
                  cases h
              | some p =>
                  rw [hk] at h
                  cases h
                  exact hstr p.1
            · rcases container_ok h with ⟨-, rfl⟩ | ⟨xs, hxs, rfl⟩
              · exact harr [] (by simp)
              · exact harr xs (ihi _ xs r hxs)
            · rcases container_ok h with ⟨-, rfl⟩ | ⟨kvs, hkvs, rfl⟩
              · exact hobj [] (by simp)
              · exact hobj kvs (ihm _ kvs r hkvs)
            · exact hscalar _ _ _ h
      · rw [parseItems_succ] at h
        obtain ⟨⟨v, r'⟩, hv, h⟩ := bind_ok.1 h
        have hhead := ihv _ _ _ hv
        rcases afterValue_ok h with ⟨-, rfl⟩ | ⟨t, ys, -, hys, rfl⟩
        · simpa using hhead
        · exact List.forall_mem_cons.2 ⟨hhead, ihi t ys r hys⟩
      · rw [parseMembers_succ] at h
        cases hkey : memberKey s with
        | none =>
            rw [hkey] at h
            cases h
        | some m =>
            rw [hkey] at h
            obtain ⟨⟨v, r'⟩, hv, h⟩ := bind_ok.1 h
            have hhead := ihv _ _ _ hv
            rcases afterValue_ok h with ⟨-, rfl⟩ | ⟨t, ys, -, hys, rfl⟩
            · simpa using hhead
            · exact List.forall_mem_cons.2 ⟨hhead, ihm t ys r hys⟩

theorem loads_forall {P : Json F → Prop}
    (hscalar : ∀ s v r, parseScalar s = .ok (v, r) → P v) (hstr : ∀ t, P (.str t))
    (harr : ∀ xs, (∀ x ∈ xs, P x) → P (.arr xs))
    (hobj : ∀ kvs, (∀ kv ∈ kvs, P kv.2) → P (.obj (dictOf kvs))) {s : PyStr} {v : Json F}
    (h : loads s = .ok v) : P v := by
  unfold loads at h
  split at h
  · exact absurd h (by simp)
  · next w r hw =>
    split at h
    · simp only [Except.ok.injEq] at h
      subst h
      exact (parse_forall hscalar hstr harr hobj _).1 _ _ _ hw
    · exact absurd h (by simp)

/-- Every dictionary `loads` returns has distinct keys, at every depth. -/
theorem loads_wf {s : PyStr} {v : Json F} (h : loads s = .ok v) : v.WF :=
  loads_forall (P := Json.WF) (fun _ _ _ => parseScalar_wf) (fun _ => trivial)
    (fun _ => wfList_iff.2) (fun _ => dictOf_wf) h

/-! ## Texts on one line -/

/-- A layout without line breaks. -/
structure Layout.OneLine (st : Layout) : Prop where
  gap : ∀ l, ∀ c ∈ st.gap l, 32 ≤ c
  colon : ∀ c ∈ st.colon, 32 ≤ c
  edge : ∀ l, ∀ c ∈ st.edge l, 32 ≤ c

theorem Layout.compact_oneLine : Layout.compact.OneLine := by
  constructor <;> simp [Layout.compact]

/-- The characters of a printed text outside its strings. -/
def ascii (c : Nat) : Prop := 32 ≤ c ∧ c < 127

instance (c : Nat) : Decidable (ascii c) := inferInstanceAs (Decidable (_ ∧ _))

theorem digits_ascii {ds : PyStr} (h : ds.all isDigit = true) : ∀ c ∈ ds, ascii c := by
  intro c hc
  have := List.all_eq_true.1 h c hc
  simp only [isDigit, Bool.and_eq_true, decide_eq_true_eq] at this
  exact ⟨by omega, by omega⟩

theorem sign_ascii (neg : Bool) : ∀ c ∈ (if neg then [45] else [] : PyStr), ascii c := by
  cases neg <;> decide

theorem intText_ascii (n : Int) : ∀ c ∈ intText n, ascii c := by
  intro c hc
  rw [intText_eq] at hc
  rcases List.mem_append.1 hc with hc | hc
  · exact sign_ascii (decide (n < 0)) c (by simpa using hc)
  · exact digits_ascii (natText_digits _) c hc

theorem floatToken_ascii {t : PyStr} (h : FloatToken t) : ∀ c ∈ t, ascii c := by
  obtain ⟨neg, lead, frac, exp, rfl, hl, hf, he, -⟩ := h.split
  intro c hc
  simp only [List.mem_append] at hc
  rcases hc with ((hc | hc) | hc) | hc
  · exact sign_ascii neg c hc
  · rcases hl with rfl | ⟨d, ds, rfl, h1, h2, hds⟩
    · rw [List.mem_singleton] at hc
      exact hc ▸ (by decide)
    · rcases List.mem_cons.1 hc with rfl | hc
      · exact ⟨by omega, by omega⟩
      · exact digits_ascii hds c hc
  · rcases hf with rfl | ⟨d, ds, rfl, hds⟩
    · exact absurd hc (by simp)
    · rcases List.mem_cons.1 hc with rfl | hc
      · decide
      · exact digits_ascii hds c hc
  · rcases he with rfl | ⟨e, sgn, d, ds, rfl, he, hs, hds⟩
    · exact absurd hc (by simp)
    · rcases List.mem_cons.1 hc with rfl | hc
      · exact ⟨by omega, by omega⟩
      · rcases List.mem_append.1 hc with hc | hc
        · rcases hs with rfl | rfl | rfl
          · exact absurd hc (by simp)
          · rw [List.mem_singleton] at hc
            exact hc ▸ (by decide)
          · rw [List.mem_singleton] at hc
            exact hc ▸ (by decide)
        · exact digits_ascii hds c hc

theorem floatText_ascii (f : F) : ∀ c ∈ floatText f, ascii c := by
  unfold floatText
  cases hf : PyFloat.finite f with
  | true => exact floatToken_ascii (PyFloat.repr_token f hf)
  | false =>
      simp only [Bool.false_eq_true, if_false]
      rcases PyFloat.special_cases f hf with ⟨-, h⟩ | ⟨-, h⟩ | ⟨-, h⟩ <;> rw [h] <;> decide

theorem escapeChar_ascii (c : Nat) : ∀ x ∈ escapeChar c, ascii x ∨ x = c ∧ 32 ≤ c := by
  have hhex : ∀ n, n < 16 → ascii (hexDigit n) := by
    intro n hn
    unfold hexDigit
    split <;> exact ⟨by omega, by omega⟩
  intro x hx
  unfold escapeChar at hx
  repeat' split at hx
  all_goals simp only [List.mem_cons, List.not_mem_nil, or_false] at hx
  all_goals first
    | (rcases hx with rfl | rfl | rfl | rfl | rfl | rfl <;>
        first | exact .inl (by decide) | exact .inl (hhex _ (by omega)))
    | exact .inr ⟨hx, by omega⟩

theorem quote_chars (s : PyStr) : ∀ c ∈ quote s, ascii c ∨ c ∈ s ∧ 32 ≤ c := by
  intro c hc
  simp only [quote, List.mem_cons, List.mem_append, List.mem_flatMap, List.not_mem_nil,
    or_false] at hc
  rcases hc with rfl | ⟨x, hx, hc⟩ | rfl
  · exact .inl (by decide)
  · rcases escapeChar_ascii x c hc with h | ⟨rfl, h⟩
    · exact .inl h
    · exact .inr ⟨hx, h⟩
  · exact .inl (by decide)

mutual

/-- The strings of a value, keys included. -/
def Json.strings : Json F → List PyStr
  | .str s => [s]
  | .arr xs => stringsList xs
  | .obj kvs => stringsMembers kvs
  | _ => []

def stringsList : List (Json F) → List PyStr
  | [] => []
  | x :: xs => x.strings ++ stringsList xs

def stringsMembers : List (PyStr × Json F) → List PyStr
  | [] => []
  | (k, v) :: kvs => k :: (v.strings ++ stringsMembers kvs)

end

attribute [grind =] Json.strings stringsList stringsMembers

omit [PyFloat F] in
theorem stringsList_eq (xs : List (Json F)) : stringsList xs = xs.flatMap Json.strings := by
  induction xs with
  | nil => rfl
  | cons x xs ih => simp only [stringsList, ih, List.flatMap_cons]

omit [PyFloat F] in
theorem stringsMembers_eq (kvs : List (PyStr × Json F)) :
    stringsMembers kvs = kvs.flatMap (fun kv => kv.1 :: kv.2.strings) := by
  induction kvs with
  | nil => rfl
  | cons kv kvs ih => simp only [stringsMembers, ih, List.flatMap_cons, List.cons_append]

/-! What holds of the ASCII characters, of the layout and of the strings of a value holds of the
characters of its text. -/

section Characters

variable {P : Nat → Prop} {st : Layout} (hascii : ∀ c, ascii c → P c)
  (hgap : ∀ l, ∀ c ∈ st.gap l, P c) (hcolon : ∀ c ∈ st.colon, P c)
  (hedge : ∀ l, ∀ c ∈ st.edge l, P c)

include hascii hgap

theorem printItems_chars (l : Nat) {xs : List (Json F)}
    (h : ∀ x ∈ xs, ∀ l, ∀ c ∈ x.print st l, P c) : ∀ c ∈ printItems st l xs, P c := by
  induction xs with
  | nil => intro c hc; exact absurd hc (by simp [printItems])
  | cons x xs ih =>
      intro c hc
      simp only [printItems, List.mem_cons, List.mem_append] at hc
      rcases hc with rfl | hc | hc | hc
      · exact hascii _ (by decide)
      · exact hgap l c hc
      · exact h x (List.mem_cons_self ..) l c hc
      · exact ih (fun y hy => h y (List.mem_cons_of_mem _ hy)) c hc

include hcolon

theorem printMembers_chars (l : Nat) {kvs : List (PyStr × Json F)}
    (hkey : ∀ kv ∈ kvs, ∀ c ∈ quote kv.1, P c)
    (h : ∀ kv ∈ kvs, ∀ l, ∀ c ∈ kv.2.print st l, P c) : ∀ c ∈ printMembers st l kvs, P c := by
  induction kvs with
  | nil => intro c hc; exact absurd hc (by simp [printMembers])
  | cons kv kvs ih =>
      intro c hc
      obtain ⟨k, v⟩ := kv
      simp only [printMembers, List.mem_cons, List.mem_append] at hc
      rcases hc with rfl | hc | hc | rfl | hc | hc | hc
      · exact hascii _ (by decide)
      · exact hgap l c hc
      · exact hkey (k, v) (List.mem_cons_self ..) c hc
      · exact hascii _ (by decide)
      · exact hcolon c hc
      · exact h (k, v) (List.mem_cons_self ..) l c hc
      · exact ih (fun y hy => hkey y (List.mem_cons_of_mem _ hy))
          (fun y hy => h y (List.mem_cons_of_mem _ hy)) c hc

include hedge

theorem print_chars (v : Json F) (hquote : ∀ s ∈ v.strings, ∀ c ∈ quote s, P c) (l : Nat) :
    ∀ c ∈ v.print st l, P c := by
  induction v using Json.inductOn generalizing l with
  | null =>
      simp only [Json.print]
      exact fun c hc => hascii c ((by decide : ∀ c ∈ py "null", ascii c) c hc)
  | bool b =>
      cases b with
      | true => exact fun c hc => hascii c ((by decide : ∀ c ∈ py "true", ascii c) c hc)
      | false => exact fun c hc => hascii c ((by decide : ∀ c ∈ py "false", ascii c) c hc)
  | int n => exact fun c hc => hascii c (intText_ascii n c hc)
  | float f => exact fun c hc => hascii c (floatText_ascii f c hc)
  | str s => exact hquote s (by simp [Json.strings])
  | arr xs ih =>
      cases xs with
      | nil => exact fun c hc => hascii c ((by decide : ∀ c ∈ [91, 93], ascii c) c hc)
      | cons x xs =>
          simp only [Json.strings, stringsList_eq] at hquote
          have hprint : ∀ y ∈ x :: xs, ∀ l, ∀ c ∈ y.print st l, P c := fun y hy l =>
            ih y hy (fun s hs => hquote s (List.mem_flatMap.2 ⟨y, hy, hs⟩)) l
          intro c hc
          simp only [Json.print, List.mem_cons, List.mem_append, List.not_mem_nil, or_false] at hc
          rcases hc with rfl | hc | hc | hc | hc | rfl
          · exact hascii _ (by decide)
          · exact hedge _ c hc
          · exact hprint x (List.mem_cons_self ..) _ c hc
          · exact printItems_chars hascii hgap _
              (fun y hy => hprint y (List.mem_cons_of_mem _ hy)) c hc
          · exact hedge _ c hc
          · exact hascii _ (by decide)
  | obj kvs ih =>
      cases kvs with
      | nil => exact fun c hc => hascii c ((by decide : ∀ c ∈ [123, 125], ascii c) c hc)
      | cons kv kvs =>
          simp only [Json.strings, stringsMembers_eq] at hquote
          have hkey : ∀ y ∈ kv :: kvs, ∀ c ∈ quote y.1, P c := fun y hy =>
            hquote y.1 (List.mem_flatMap.2 ⟨y, hy, List.mem_cons_self ..⟩)
          have hprint : ∀ y ∈ kv :: kvs, ∀ l, ∀ c ∈ y.2.print st l, P c := fun y hy l =>
            ih y hy (fun s hs => hquote s
              (List.mem_flatMap.2 ⟨y, hy, List.mem_cons_of_mem _ hs⟩)) l
          intro c hc
          obtain ⟨k, v⟩ := kv
          simp only [Json.print, List.mem_cons, List.mem_append, List.not_mem_nil, or_false] at hc
          rcases hc with rfl | hc | hc | rfl | hc | hc | hc | hc | rfl
          · exact hascii _ (by decide)
          · exact hedge _ c hc
          · exact hkey (k, v) (List.mem_cons_self ..) c hc
          · exact hascii _ (by decide)
          · exact hcolon c hc
          · exact hprint (k, v) (List.mem_cons_self ..) _ c hc
          · exact printMembers_chars hascii hgap hcolon _
              (fun y hy => hkey y (List.mem_cons_of_mem _ hy))
              (fun y hy => hprint y (List.mem_cons_of_mem _ hy)) c hc
          · exact hedge _ c hc
          · exact hascii _ (by decide)

end Characters

/-- A text printed without an indentation has no control character, hence no line break. -/
theorem print_printable {st : Layout} (hst : st.OneLine) (v : Json F) (l : Nat) :
    ∀ c ∈ v.print st l, 32 ≤ c := by
  refine print_chars (fun c hc => hc.1) hst.gap hst.colon hst.edge v (fun s _ c hc => ?_) l
  rcases quote_chars s c hc with h | h
  · exact h.1
  · exact h.2

/-! ## Encoding a printed text -/

theorem ws_lt {s : PyStr} (h : s.all isWs = true) : ∀ c ∈ s, c < 128 := by
  intro c hc
  have := List.all_eq_true.1 h c hc
  simp only [isWs, Bool.or_eq_true, beq_iff_eq] at this
  omega

/-- A character of a printed text is ASCII or a character of one of its strings. -/
theorem print_chars_or (st : Layout) (v : Json F) (l : Nat) :
    ∀ c ∈ v.print st l, c < 128 ∨ ∃ s ∈ v.strings, c ∈ s := by
  have hgap : ∀ l, ∀ c ∈ st.gap l, c < 128 ∨ ∃ s ∈ v.strings, c ∈ s :=
    fun l c hc => .inl (ws_lt (st.gap_ws l) c hc)
  have hcolon : ∀ c ∈ st.colon, c < 128 ∨ ∃ s ∈ v.strings, c ∈ s :=
    fun c hc => .inl (ws_lt st.colon_ws c hc)
  have hedge : ∀ l, ∀ c ∈ st.edge l, c < 128 ∨ ∃ s ∈ v.strings, c ∈ s :=
    fun l c hc => .inl (ws_lt (st.edge_ws l) c hc)
  refine print_chars (fun c hc => .inl (hc.2.trans (by decide))) hgap hcolon hedge v
    (fun s hs c hc => ?_) l
  rcases quote_chars s c hc with h | h
  · exact .inl (h.2.trans (by decide))
  · exact .inr ⟨s, hs, h.1⟩

omit [PyFloat F] in
theorem mem_strings_sortKeys (v : Json F) (s : PyStr) : s ∈ v.sortKeys.strings ↔ s ∈ v.strings := by
  induction v using Json.inductOn with
  | null => rfl
  | bool b => rfl
  | int n => rfl
  | float f => rfl
  | str t => rfl
  | arr xs ih =>
      simp only [Json.sortKeys, Json.strings, stringsList_eq, sortKeysList_eq, List.mem_flatMap,
        List.mem_map]
      constructor
      · rintro ⟨_, ⟨x, hx, rfl⟩, hs⟩
        exact ⟨x, hx, (ih x hx).1 hs⟩
      · rintro ⟨x, hx, hs⟩
        exact ⟨_, ⟨x, hx, rfl⟩, (ih x hx).2 hs⟩
  | obj kvs ih =>
      simp only [Json.sortKeys, Json.strings, stringsMembers_eq, List.mem_flatMap,
        (sortMembers_perm _).mem_iff, sortKeysMembers_eq, List.mem_map]
      constructor
      · rintro ⟨_, ⟨kv, hkv, rfl⟩, hs⟩
        refine ⟨kv, hkv, ?_⟩
        rcases List.mem_cons.1 hs with rfl | hs
        · exact List.mem_cons_self ..
        · exact List.mem_cons_of_mem _ ((ih kv hkv).1 hs)
      · rintro ⟨kv, hkv, hs⟩
        refine ⟨_, ⟨kv, hkv, rfl⟩, ?_⟩
        rcases List.mem_cons.1 hs with rfl | hs
        · exact List.mem_cons_self ..
        · exact List.mem_cons_of_mem _ ((ih kv hkv).2 hs)

/-- The text of a value whose strings are encodable is encodable. -/
theorem encodeUtf8_print (st : Layout) (v : Json F) (l : Nat)
    (h : ∀ s ∈ v.strings, ∀ c ∈ s, (utf8Char c).isSome = true) :
    ∃ bs, encodeUtf8 (v.print st l) = some bs := by
  refine encodeUtf8_total fun c hc => ?_
  rcases print_chars_or st v l c hc with hlt | ⟨s, hs, hc⟩
  · simp [utf8Char, hlt]
  · exact h s hs c hc

theorem mem_quote {s : PyStr} {c : Nat} (hc : c ∈ s) (h : 128 ≤ c) : c ∈ quote s := by
  have hescape : escapeChar c = [c] := by
    unfold escapeChar
    repeat' rw [if_neg (by omega)]
  refine List.mem_cons_of_mem _ (List.mem_append_left _ (List.mem_flatMap.2 ⟨c, hc, ?_⟩))
  rw [hescape]
  exact List.mem_singleton_self c

theorem mem_printItems (st : Layout) (l : Nat) {x : Json F} {xs : List (Json F)} {c : Nat}
    (hx : x ∈ xs) (hc : c ∈ x.print st l) : c ∈ printItems st l xs := by
  induction xs with
  | nil => exact absurd hx List.not_mem_nil
  | cons y ys ih =>
      simp only [printItems, List.mem_cons, List.mem_append]
      rcases List.mem_cons.1 hx with rfl | hx
      · exact .inr (.inr (.inl hc))
      · exact .inr (.inr (.inr (ih hx)))

theorem mem_printMembers (st : Layout) (l : Nat) {kv : PyStr × Json F}
    {kvs : List (PyStr × Json F)} {c : Nat} (hkv : kv ∈ kvs)
    (hc : c ∈ quote kv.1 ∨ c ∈ kv.2.print st l) : c ∈ printMembers st l kvs := by
  induction kvs with
  | nil => exact absurd hkv List.not_mem_nil
  | cons y ys ih =>
      obtain ⟨k, v⟩ := y
      simp only [printMembers, List.mem_cons, List.mem_append]
      rcases List.mem_cons.1 hkv with rfl | hkv
      · tauto
      · have := ih hkv
        tauto

/-- Characters beyond ASCII are written as they are. -/
theorem mem_print_of_mem_strings (st : Layout) (v : Json F) {s : PyStr} {c : Nat} (hc : c ∈ s)
    (h : 128 ≤ c) : ∀ l, s ∈ v.strings → c ∈ v.print st l := by
  induction v using Json.inductOn with
  | null | bool | int | float => intro l hs; exact absurd hs (by simp [Json.strings])
  | str t =>
      intro l hs
      obtain rfl := List.mem_singleton.1 hs
      exact mem_quote hc h
  | arr xs ih =>
      intro l hs
      simp only [Json.strings, stringsList_eq, List.mem_flatMap] at hs
      obtain ⟨x, hx, hs⟩ := hs
      have hprint := ih x hx (l + 1) hs
      cases xs with
      | nil => exact absurd hx List.not_mem_nil
      | cons y ys =>
          simp only [Json.print, List.mem_cons, List.mem_append]
          rcases List.mem_cons.1 hx with rfl | hx
          · tauto
          · have := mem_printItems st (l + 1) hx hprint
            tauto
  | obj kvs ih =>
      intro l hs
      simp only [Json.strings, stringsMembers_eq, List.mem_flatMap] at hs
      obtain ⟨kv, hkv, hs⟩ := hs
      have hprint : c ∈ quote kv.1 ∨ c ∈ kv.2.print st (l + 1) := by
        rcases List.mem_cons.1 hs with rfl | hs
        · exact .inl (mem_quote hc h)
        · exact .inr (ih kv hkv (l + 1) hs)
      cases kvs with
      | nil => exact absurd hkv List.not_mem_nil
      | cons y ys =>
          obtain ⟨k, w⟩ := y
          simp only [Json.print, List.mem_cons, List.mem_append]
          rcases List.mem_cons.1 hkv with rfl | hkv
          · tauto
          · have := mem_printMembers st (l + 1) hkv hprint
            tauto

/-- The text of a value whose strings are ASCII is one octet a character. -/
theorem encodeUtf8_print_ascii (st : Layout) (v : Json F) (l : Nat)
    (h : ∀ s ∈ v.strings, ∀ c ∈ s, c < 128) :
    encodeUtf8 (v.print st l) = some ((v.print st l).map UInt8.ofNat) := by
  refine encodeUtf8_ascii fun c hc => ?_
  rcases print_chars_or st v l c hc with hlt | ⟨s, hs, hc⟩
  · exact hlt
  · exact h s hs c hc

end Loads

end Elyra.Python
