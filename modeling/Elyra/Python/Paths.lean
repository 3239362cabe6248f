import Elyra.Python.Builtins

set_option autoImplicit false

/-! # Normal forms of absolute paths

`normpath` of an absolute path is one leading slash, or two, before plain components: neither empty nor
`.` nor `..`, and without a slash. The components determine the path up to its leading slashes, and
being inside a directory is being a continuation of its components. -/

namespace Elyra.Python

/-! ## Components -/

/-- A component of a normal form. -/
structure PlainName (comp : PyStr) : Prop where
  ne_nil : comp ≠ []
  ne_dot : comp ≠ py "."
  ne_dots : comp ≠ py ".."
  slash : 47 ∉ comp

/-- The leading slashes before the components. -/
def slashed (n : Nat) (comps : List PyStr) : PyStr :=
  List.replicate n 47 ++ List.intercalate [47] comps

theorem splitSlash_eq (s : PyStr) : splitSlash s = s.splitOn 47 := by
  induction s with
  | nil => rfl
  | cons c s ih =>
      rw [splitSlash, List.splitOn_cons_eq_if_modifyHead, ih]
      by_cases hc : c = 47
      · rw [if_pos hc, if_pos (beq_iff_eq.2 hc)]
      · rw [if_neg hc, if_neg (by simpa using hc)]
        cases hs : s.splitOn 47 with
        | nil => exact absurd hs (List.splitOn_ne_nil 47 s)
        | cons comp rest => rfl

theorem splitSlash_append (a b : PyStr) :
    splitSlash (a ++ 47 :: b) = splitSlash a ++ splitSlash b := by
  rw [splitSlash_eq, splitSlash_eq, splitSlash_eq, List.splitOn_append_cons_self]

theorem splitSlash_ne_nil (s : PyStr) : splitSlash s ≠ [] := by
  rw [splitSlash_eq]
  exact List.splitOn_ne_nil 47 s

theorem join_splitSlash (s : PyStr) : List.intercalate [47] (splitSlash s) = s := by
  rw [splitSlash_eq]
  exact List.intercalate_splitOn 47

theorem splitSlash_join {comps : List PyStr} (hne : comps ≠ []) (h : ∀ c ∈ comps, 47 ∉ c) :
    splitSlash (List.intercalate [47] comps) = comps := by
  rw [splitSlash_eq]
  exact List.splitOn_intercalate 47 h hne

theorem slash_not_mem_splitSlash (s : PyStr) : ∀ c ∈ splitSlash s, 47 ∉ c := by
  induction s with
  | nil =>
      intro c hc
      obtain rfl := List.mem_singleton.1 hc
      exact List.not_mem_nil
  | cons a s ih =>
      intro c hc
      rw [splitSlash] at hc
      by_cases ha : a = 47
      · rw [if_pos ha] at hc
        rcases List.mem_cons.1 hc with rfl | hc
        · exact List.not_mem_nil
        · exact ih c hc
      · rw [if_neg ha] at hc
        cases hs : splitSlash s with
        | nil => exact absurd hs (splitSlash_ne_nil s)
        | cons comp rest =>
            rw [hs] at hc ih
            rcases List.mem_cons.1 hc with rfl | hc
            · exact fun hmem => (List.mem_cons.1 hmem).elim (fun heq => ha heq.symm)
                (ih comp List.mem_cons_self)
            · exact ih c (List.mem_cons_of_mem _ hc)

theorem intercalate_append {a b : List PyStr} (ha : a ≠ []) (hb : b ≠ []) :
    List.intercalate [47] (a ++ b) = List.intercalate [47] a ++ 47 :: List.intercalate [47] b := by
  induction a with
  | nil => exact absurd rfl ha
  | cons x a ih =>
      cases a with
      | nil =>
          rw [List.singleton_append, List.intercalate_cons_of_ne_nil hb,
            List.intercalate_singleton]
          simp
      | cons y a =>
          have hrest := ih (List.cons_ne_nil y a)
          rw [List.cons_append, List.intercalate_cons_of_ne_nil (by simp), hrest,
            List.intercalate_cons_of_ne_nil (List.cons_ne_nil y a)]
          simp

/-! ## The component loop -/

theorem normComponents_plain {acc comps : List PyStr} (hacc : ∀ c ∈ acc, PlainName c)
    (hcomps : ∀ c ∈ comps, 47 ∉ c) : ∀ c ∈ normComponents true acc comps, PlainName c := by
  induction comps generalizing acc with
  | nil =>
      intro c hc
      exact hacc c (List.mem_reverse.1 hc)
  | cons comp comps ih =>
      have hrest : ∀ c ∈ comps, 47 ∉ c := fun c hc => hcomps c (List.mem_cons_of_mem _ hc)
      rw [normComponents]
      split
      · exact ih hacc hrest
      · next hskip =>
        split
        · next hkeep =>
          have hdots : comp ≠ py ".." := by
            rintro rfl
            have hhead : acc.head? = some (py "..") := by simpa using hkeep
            exact (hacc _ (List.mem_of_head? hhead)).ne_dots rfl
          refine ih (fun c hc => ?_) hrest
          rcases List.mem_cons.1 hc with rfl | hc
          · exact ⟨fun h => hskip (.inl h), fun h => hskip (.inr h), hdots,
              hcomps _ List.mem_cons_self⟩
          · exact hacc c hc
        · exact ih (fun c hc => hacc c (List.mem_of_mem_tail hc)) hrest

/-- Empty components do not count. -/
theorem normComponents_filter (rooted : Bool) (acc comps : List PyStr) :
    normComponents rooted acc (comps.filter (· ≠ [])) = normComponents rooted acc comps := by
  induction comps generalizing acc with
  | nil => rfl
  | cons comp comps ih =>
      by_cases hcomp : comp = []
      · rw [List.filter_cons_of_neg (by simpa using hcomp), ih, normComponents,
          if_pos (.inl hcomp)]
      · rw [List.filter_cons_of_pos (by simpa using hcomp)]
        simp only [normComponents, ih]

theorem normComponents_of_plain {acc comps : List PyStr} (h : ∀ c ∈ comps, PlainName c) :
    normComponents true acc comps = acc.reverse ++ comps := by
  induction comps generalizing acc with
  | nil => exact (List.append_nil _).symm
  | cons comp comps ih =>
      have hcomp := h comp List.mem_cons_self
      rw [normComponents, if_neg (not_or.2 ⟨hcomp.ne_nil, hcomp.ne_dot⟩), if_pos (.inl hcomp.ne_dots),
        ih fun c hc => h c (List.mem_cons_of_mem _ hc), List.reverse_cons, List.append_assoc,
        List.singleton_append]

/-! ## Normal forms -/

theorem initialSlashes_cases {path : PyStr} (h : path.head? = some 47) :
    initialSlashes path = 1 ∨ initialSlashes path = 2 := by
  unfold initialSlashes
  split
  · exact .inl rfl
  · exact .inr rfl
  · exact .inl rfl
  · next hother =>
    cases path with
    | nil => cases h
    | cons c path =>
        obtain rfl := Option.some.inj h
        exact absurd rfl (hother path)

/-- The components of the normal form of an absolute path. -/
def normalComponents (path : PyStr) : List PyStr := normComponents true [] (splitSlash path)

theorem normalComponents_plain (path : PyStr) : ∀ c ∈ normalComponents path, PlainName c :=
  normComponents_plain (fun _ h => nomatch h) (slash_not_mem_splitSlash path)

/-- **The normal form of an absolute path.** -/
theorem normpath_eq {path : PyStr} (h : path.head? = some 47) :
    normpath path = slashed (initialSlashes path) (normalComponents path) := by
  have hne : path ≠ [] := by
    rintro rfl
    cases h
  have hslashes : initialSlashes path ≠ 0 := by
    rcases initialSlashes_cases h with hn | hn <;> rw [hn] <;> decide
  have hjoined : slashed (initialSlashes path) (normalComponents path) ≠ [] := by
    intro hnil
    have hlen := congrArg List.length (List.append_eq_nil_iff.1 hnil).1
    rw [List.length_replicate] at hlen
    exact hslashes hlen
  rw [normpath, if_neg hne]
  simp only [decide_eq_true hslashes]
  exact if_neg hjoined

section Slashed

variable {n m : Nat} {comps ds : List PyStr}

/-- The pieces between the slashes. -/
theorem splitSlash_slashed (hcomps : ∀ c ∈ comps, PlainName c) :
    splitSlash (slashed n comps) =
      List.replicate n [] ++ if comps = [] then [[]] else comps := by
  induction n with
  | zero =>
      by_cases hne : comps = []
      · subst hne
        rfl
      · rw [slashed, List.replicate_zero, List.replicate_zero, List.nil_append, List.nil_append,
          if_neg hne]
        exact splitSlash_join hne fun c hc => (hcomps c hc).slash
  | succ n ih =>
      have hcons : slashed (n + 1) comps = [] ++ 47 :: slashed n comps := rfl
      rw [hcons, splitSlash_append, ih, List.replicate_succ]
      rfl

theorem filter_splitSlash_slashed (hcomps : ∀ c ∈ comps, PlainName c) :
    (splitSlash (slashed n comps)).filter (· ≠ []) = comps := by
  have hreplicate : (List.replicate n ([] : PyStr)).filter (· ≠ []) = [] := by simp
  rw [splitSlash_slashed hcomps, List.filter_append, hreplicate, List.nil_append]
  by_cases hne : comps = []
  · subst hne
    rfl
  · rw [if_neg hne]
    exact List.filter_eq_self.2 fun c hc => by simpa using (hcomps c hc).ne_nil

theorem normalComponents_slashed (hcomps : ∀ c ∈ comps, PlainName c) :
    normalComponents (slashed n comps) = comps := by
  rw [normalComponents, ← normComponents_filter, filter_splitSlash_slashed hcomps,
    normComponents_of_plain hcomps]
  rfl

theorem intercalate_head (hcomps : ∀ c ∈ comps, PlainName c) :
    (List.intercalate [47] comps).head? ≠ some 47 := by
  cases comps with
  | nil => exact nofun
  | cons c rest =>
      have hc := hcomps c List.mem_cons_self
      obtain ⟨x, c', rfl⟩ := List.exists_cons_of_ne_nil hc.ne_nil
      have hx : x ≠ 47 := fun h => hc.slash (h ▸ List.mem_cons_self)
      intro hhead
      rw [List.intercalate_cons_cons_left] at hhead
      exact hx (Option.some.inj hhead)

theorem initialSlashes_slashed (hn : n = 1 ∨ n = 2) (hcomps : ∀ c ∈ comps, PlainName c) :
    initialSlashes (slashed n comps) = n := by
  have hhead := intercalate_head hcomps
  rcases hn with rfl | rfl
  · show initialSlashes (47 :: List.intercalate [47] comps) = 1
    cases hrest : List.intercalate [47] comps with
    | nil => rfl
    | cons x rest =>
        rw [hrest] at hhead
        have hx : x ≠ 47 := fun h => hhead (congrArg some h)
        simp [initialSlashes, hx]
  · show initialSlashes (47 :: 47 :: List.intercalate [47] comps) = 2
    cases hrest : List.intercalate [47] comps with
    | nil => rfl
    | cons x rest =>
        rw [hrest] at hhead
        have hx : x ≠ 47 := fun h => hhead (congrArg some h)
        simp [initialSlashes, hx]

theorem slashed_head (hn : n = 1 ∨ n = 2) : (slashed n comps).head? = some 47 := by
  rcases hn with rfl | rfl <;> rfl

theorem normpath_slashed (hn : n = 1 ∨ n = 2) (hcomps : ∀ c ∈ comps, PlainName c) :
    normpath (slashed n comps) = slashed n comps := by
  rw [normpath_eq (slashed_head hn), initialSlashes_slashed hn hcomps,
    normalComponents_slashed hcomps]

theorem slashed_injective (hn : n = 1 ∨ n = 2) (hm : m = 1 ∨ m = 2)
    (hcomps : ∀ c ∈ comps, PlainName c) (hds : ∀ c ∈ ds, PlainName c)
    (h : slashed n comps = slashed m ds) : n = m ∧ comps = ds := by
  constructor
  · rw [← initialSlashes_slashed hn hcomps, h, initialSlashes_slashed hm hds]
  · rw [← normalComponents_slashed (n := n) hcomps, h, normalComponents_slashed hds]

theorem slashed_append {tail : List PyStr} (hds : ds ≠ []) (htail : tail ≠ []) :
    slashed n (ds ++ tail) = slashed n ds ++ 47 :: List.intercalate [47] tail := by
  rw [slashed, intercalate_append hds htail, slashed, List.append_assoc]

/-- The last piece of a path that does not end in a slash is not empty. -/
theorem splitSlash_eq_concat {r : PyStr} {init : List PyStr} (h : splitSlash r = init ++ [[]]) :
    r = [] ∨ r.getLast? = some 47 := by
  have hr := join_splitSlash r
  rw [h] at hr
  by_cases hinit : init = []
  · subst hinit
    exact .inl hr.symm
  · rw [intercalate_append hinit (List.cons_ne_nil _ _)] at hr
    refine .inr ?_
    rw [← hr]
    simp

/-- What stands before a slash between two components of a normal form is a normal form. -/
theorem cut_slashed (hcomps : ∀ c ∈ comps, PlainName c) {r : PyStr} (hr : r ≠ [])
    (hlast : r.getLast? ≠ some 47) (h : r ++ [47] <+: slashed n comps) :
    ∃ ds tail, ds ≠ [] ∧ tail ≠ [] ∧ comps = ds ++ tail ∧ r = slashed n ds := by
  obtain ⟨rest, hrest⟩ := h
  have hsplit : splitSlash r ++ splitSlash rest =
      List.replicate n [] ++ if comps = [] then [[]] else comps := by
    rw [← splitSlash_slashed hcomps, ← hrest, ← splitSlash_append, List.append_assoc]
    rfl
  -- The last piece of `r` is no empty one.
  have hnot : ∀ k, splitSlash r ≠ List.replicate k [] := by
    rintro (_ | k) heq
    · exact splitSlash_ne_nil r heq
    · rw [List.replicate_succ'] at heq
      exact (splitSlash_eq_concat heq).elim hr hlast
  by_cases hne : comps = []
  · rw [if_pos hne, ← List.replicate_one, ← List.replicate_add] at hsplit
    exact absurd (List.append_eq_replicate_iff.1 hsplit).2.1 (hnot _)
  · rw [if_neg hne] at hsplit
    rcases List.append_eq_append_iff.1 hsplit with ⟨mid, hmid, -⟩ | ⟨ds, hds, htail⟩
    · exact absurd (List.append_eq_replicate_iff.1 hmid.symm).2.1 (hnot _)
    · have hdsne : ds ≠ [] := by
        rintro rfl
        rw [List.append_nil] at hds
        exact hnot _ hds
      refine ⟨ds, splitSlash rest, hdsne, splitSlash_ne_nil rest, htail, ?_⟩
      have hplain : ∀ c ∈ ds, PlainName c := fun c hc =>
        hcomps c (htail ▸ List.mem_append_left _ hc)
      have hpieces : splitSlash (slashed n ds) = splitSlash r := by
        rw [splitSlash_slashed hplain, if_neg hdsne, hds]
      rw [← join_splitSlash r, ← hpieces, join_splitSlash]

end Slashed

/-- `normpath` is idempotent on absolute paths. -/
theorem normpath_normpath {path : PyStr} (h : path.head? = some 47) :
    normpath (normpath path) = normpath path := by
  rw [normpath_eq h]
  exact normpath_slashed (initialSlashes_cases h) (normalComponents_plain path)

end Elyra.Python
