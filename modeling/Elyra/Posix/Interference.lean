import Mathlib.Data.Set.Lattice
import Mathlib.Order.CompletePartialOrder
import Elyra.Posix.Pool
import Elyra.Posix.Storm

set_option autoImplicit false

/-! # Programs that interfere

Threads run programs over one shared state, and any thread may act between two calls of another. A call
can give rights to the thread that makes it: a right comes into being with one call, is never given
away, and no two threads have the same. What a thread can rely on while the others act depends on its
rights (`Rights.rely`), and a call has to leave every other thread what that one relies on
(`Rights.Keeps`). `minding` is the weakest precondition of a program that others interfere with; what it
says of the threads one by one holds in every run of all of them (`Mindful.runs`). -/

namespace Elyra.Posix

/-! ## Rights -/

structure Rights (S : Interface) (σ H : Type) where
  /-- What a call gives to the thread that makes it. -/
  made : (c : S.Call) → Except S.Failure (S.Answer c) → Set H
  /-- The rights that have come into being. -/
  live : σ → Set H
  inv : σ → Prop
  /-- What others may do to the state while a thread has the rights. -/
  rely : Set H → σ → σ → Prop
  refl : ∀ A s, rely A s s
  trans : ∀ A s s' s'', rely A s s' → rely A s' s'' → rely A s s''

variable {S : Interface} {E E' α β κ σ H : Type}

/-- A step of a thread with the rights `A` that gives it the new ones. -/
structure Rights.Keeps (K : Rights S σ H) (A new : Set H) (s s' : σ) : Prop where
  inv : K.inv s'
  live : K.live s' = K.live s ∪ new
  fresh : Disjoint new (K.live s)
  others : ∀ B, Disjoint B A → B ⊆ K.live s → K.rely B s s'

namespace Program

variable {K : Rights S σ H} {M : Machine S σ} {A : Set H} {s : σ}

/-- Every call leaves the others what they rely on, and the program ends as `Q` says whatever they do in
    between. -/
def minding (K : Rights S σ H) (M : Machine S σ) :
    Program S E α → Set H → (Except E α → Set H → σ → Prop) → σ → Prop
  | .done a, A, Q, s => Q (.ok a) A s
  | .raise e, A, Q, s => Q (.error e) A s
  | .call c next, A, Q, s => ∀ r s', M.answers c s r s' → K.Keeps A (K.made c r) s s' ∧
      ∀ s'', K.inv s'' → K.rely (A ∪ K.made c r) s' s'' →
        minding K M (next r) (A ∪ K.made c r) Q s''
  | .undo p, A, Q, s => minding K M p A Q s

theorem minding_mono {p : Program S E α} {Q Q' : Except E α → Set H → σ → Prop}
    (hQ : ∀ x A s, Q x A s → Q' x A s) (h : minding K M p A Q s) : minding K M p A Q' s := by
  induction p generalizing A s with
  | done a => exact hQ _ _ _ h
  | raise e => exact hQ _ _ _ h
  | call c next ih =>
      exact fun r s' ha => ⟨(h r s' ha).1, fun s'' hs hr => ih r ((h r s' ha).2 s'' hs hr)⟩
  | undo p ih => exact ih h

/-- The postcondition that goes on with `f` when the program returns. -/
def mindingThen (K : Rights S σ H) (M : Machine S σ) (f : α → Program S E β)
    (Q : Except E β → Set H → σ → Prop) : Except E α → Set H → σ → Prop
  | .ok a, A, s => minding K M (f a) A Q s
  | .error e, A, s => Q (.error e) A s

theorem minding_bind {p : Program S E α} {f : α → Program S E β}
    {Q : Except E β → Set H → σ → Prop} (h : minding K M p A (mindingThen K M f Q) s) :
    minding K M (p >>= f) A Q s := by
  show minding K M (p.bind f) A Q s
  induction p generalizing A s with
  | done a => exact h
  | raise e => exact h
  | call c next ih =>
      exact fun r s' ha => ⟨(h r s' ha).1, fun s'' hs hr => ih r ((h r s' ha).2 s'' hs hr)⟩
  | undo p ih => exact ih h

/-- The postcondition that goes on with the handler when the program raises. -/
def mindingOr (K : Rights S σ H) (M : Machine S σ) (handler : E → Program S E' α)
    (Q : Except E' α → Set H → σ → Prop) : Except E α → Set H → σ → Prop
  | .ok a, A, s => Q (.ok a) A s
  | .error e, A, s => minding K M (handler e) A Q s

theorem minding_orElse {p : Program S E α} {handler : E → Program S E' α}
    {Q : Except E' α → Set H → σ → Prop} (h : minding K M p A (mindingOr K M handler Q) s) :
    minding K M (p.orElse handler) A Q s := by
  induction p generalizing A s with
  | done a => exact h
  | raise e => exact h
  | call c next ih =>
      exact fun r s' ha => ⟨(h r s' ha).1, fun s'' hs hr => ih r ((h r s' ha).2 s'' hs hr)⟩
  | undo p ih => exact ih h

/-- A program of calls that keep `J`, and leave the others what they rely on. -/
theorem minding_plain {P : S.Call → Prop} {p : Program S E α} {V : α → Prop} (hp : Plain P p)
    (hr : Returns V p) {J : Set H → σ → Prop}
    (hkeeps : ∀ A c s r s', P c → K.inv s → M.answers c s r s' →
      K.Keeps A (K.made c r) s s' ∧ (J A s → J (A ∪ K.made c r) s'))
    (hJ : ∀ A s s', K.inv s' → K.rely A s s' → J A s → J A s') (hinv : K.inv s) (h : J A s) :
    minding K M p A (fun x A' s' => K.inv s' ∧ J A' s' ∧ ∀ a, x = .ok a → V a) s := by
  induction p generalizing A s with
  | done a =>
      refine ⟨hinv, h, ?_⟩
      rintro a' ha
      cases ha
      exact hr
  | raise e => exact ⟨hinv, h, fun a ha => nomatch ha⟩
  | call c next ih =>
      intro r s' ha
      obtain ⟨hk, hj⟩ := hkeeps A c s r s' hp.1 hinv ha
      exact ⟨hk, fun s'' hs hrely => ih r (hp.2 r) (hr r) hs (hJ _ s' s'' hs hrely (hj h))⟩
  | undo p => exact hp.elim

end Program

/-! ## Threads -/

/-- A thread runs a program; which machine it has depends on its tag. -/
structure Thread (κ : Type) (S : Interface) (E α : Type) where
  tag : κ
  code : Program S E α

/-- The thread has come to an end. -/
def Thread.Finished (t : Thread κ S E α) : Prop := ∃ r, t.code = Program.ofResult r

inductive Thread.Act (M : κ → Machine S σ) : σ → Thread κ S E α → σ → Thread κ S E α → Prop
  | step {s s' tag code code'} : Program.Step (M tag) .never code s .never code' s' →
      Act M s ⟨tag, code⟩ s' ⟨tag, code'⟩

/-- Each thread has rights of its own, and minds those of the others; the rights that there were in `s₀`,
    before the threads came, are nobody's. -/
structure Mindful (K : Rights S σ H) (M : κ → Machine S σ) (s₀ : σ)
    (Q : κ → Except E α → Set H → σ → Prop) (p : Pool σ (Thread κ S E α)) : Prop where
  inv : K.inv p.shared
  kept : K.rely (K.live s₀) s₀ p.shared
  threads : ∃ held : Nat → Set H, (∀ i j, i ≠ j → Disjoint (held i) (held j)) ∧
    (∀ i, Disjoint (K.live s₀) (held i)) ∧
    (∀ h, h ∈ K.live p.shared ↔ h ∈ K.live s₀ ∨ ∃ i, h ∈ held i) ∧
    (∀ i, p.threads.length ≤ i → held i = ∅) ∧
    ∀ i t, p.threads[i]? = some t → ∀ s', K.inv s' → K.rely (held i) p.shared s' →
      t.code.minding K (M t.tag) (held i) (Q t.tag) s'

variable {K : Rights S σ H} {M : κ → Machine S σ} {s₀ : σ}
  {Q : κ → Except E α → Set H → σ → Prop} {starts : Thread κ S E α → Prop}
  {p p' : Pool σ (Thread κ S E α)}

/-- One call of one thread. -/
theorem Mindful.answer {s s' : σ} {xs ys : List (Thread κ S E α)} {tag : κ} {c : S.Call}
    {next : Except S.Failure (S.Answer c) → Program S E α} {r : Except S.Failure (S.Answer c)}
    (h : Mindful K M s₀ Q ⟨s, xs ++ ⟨tag, .call c next⟩ :: ys⟩)
    (ha : (M tag).answers c s r s') :
    K.rely ∅ s s' ∧ Mindful K M s₀ Q ⟨s', xs ++ ⟨tag, next r⟩ :: ys⟩ := by
  obtain ⟨hinv, hkept, held, hdisjoint, hbefore, hlive, hnone, hthreads⟩ := h
  have hcall := hthreads xs.length ⟨tag, .call c next⟩ (by simp) s hinv (K.refl _ _)
  obtain ⟨hkeeps, hnext⟩ := hcall r s' ha
  have hheld : ∀ i, held i ⊆ K.live s := fun i g hg => (hlive g).2 (.inr ⟨i, hg⟩)
  have hlive₀ : K.live s₀ ⊆ K.live s := fun g hg => (hlive g).2 (.inl hg)
  refine ⟨hkeeps.others ∅ (Set.empty_disjoint _) (Set.empty_subset _), hkeeps.inv,
    K.trans _ _ _ _ hkept (hkeeps.others _ (hbefore xs.length) hlive₀),
    Function.update held xs.length (held xs.length ∪ K.made c r), ?_, ?_, ?_, ?_, ?_⟩
  · intro i j hij
    have hnew : ∀ k, Disjoint (K.made c r) (held k) := fun k => hkeeps.fresh.mono_right (hheld k)
    by_cases hi : i = xs.length
    · subst hi
      rw [Function.update_self, Function.update_of_ne hij.symm]
      exact Set.disjoint_union_left.2 ⟨hdisjoint _ _ hij, hnew j⟩
    · rw [Function.update_of_ne hi]
      by_cases hj : j = xs.length
      · subst hj
        rw [Function.update_self]
        exact Set.disjoint_union_right.2 ⟨hdisjoint _ _ hij, (hnew i).symm⟩
      · rw [Function.update_of_ne hj]
        exact hdisjoint i j hij
  · intro i
    by_cases hi : i = xs.length
    · subst hi
      rw [Function.update_self]
      exact Set.disjoint_union_right.2 ⟨hbefore _, (hkeeps.fresh.mono_right hlive₀).symm⟩
    · rw [Function.update_of_ne hi]
      exact hbefore i
  · intro g
    rw [hkeeps.live, Set.mem_union, hlive]
    constructor
    · rintro ((hg | ⟨i, hg⟩) | hg)
      · exact .inl hg
      · refine .inr ⟨i, ?_⟩
        by_cases hi : i = xs.length
        · subst hi
          rw [Function.update_self]
          exact .inl hg
        · rwa [Function.update_of_ne hi]
      · exact .inr ⟨xs.length, by rw [Function.update_self]; exact .inr hg⟩
    · rintro (hg | ⟨i, hg⟩)
      · exact .inl (.inl hg)
      · by_cases hi : i = xs.length
        · subst hi
          rw [Function.update_self] at hg
          exact hg.imp (fun hg => .inr ⟨_, hg⟩) fun hg => hg
        · rw [Function.update_of_ne hi] at hg
          exact .inl (.inr ⟨i, hg⟩)
  · intro i hi
    have hne : i ≠ xs.length := by
      rintro rfl
      simp only [List.length_append, List.length_cons] at hi
      omega
    rw [Function.update_of_ne hne]
    exact hnone i (by simpa using hi)
  · intro i t ht s'' hs'' hrely
    by_cases hi : i = xs.length
    · subst hi
      obtain rfl : (⟨tag, next r⟩ : Thread κ S E α) = t := by simpa using ht
      rw [Function.update_self] at hrely ⊢
      exact hnext s'' hs'' hrely
    · rw [Function.update_of_ne hi] at hrely ⊢
      refine hthreads i t ?_ s'' hs'' (K.trans _ _ _ _ (hkeeps.others _ (hdisjoint i _ hi) (hheld i)) hrely)
      rw [← ht]
      exact Pool.getElem?_other hi

/-- A thread enters what it has to undo. -/
theorem Mindful.undo {s : σ} {xs ys : List (Thread κ S E α)} {tag : κ} {code : Program S E α}
    (h : Mindful K M s₀ Q ⟨s, xs ++ ⟨tag, .undo code⟩ :: ys⟩) :
    Mindful K M s₀ Q ⟨s, xs ++ ⟨tag, code⟩ :: ys⟩ := by
  obtain ⟨hinv, hkept, held, hdisjoint, hbefore, hlive, hnone, hthreads⟩ := h
  refine ⟨hinv, hkept, held, hdisjoint, hbefore, hlive, fun i hi => hnone i (by simpa using hi), ?_⟩
  intro i t ht s' hs' hrely
  by_cases hi : i = xs.length
  · subst hi
    obtain rfl : (⟨tag, code⟩ : Thread κ S E α) = t := by simpa using ht
    exact hthreads xs.length ⟨tag, .undo code⟩ (by simp) s' hs' hrely
  · refine hthreads i t ?_ s' hs' hrely
    rw [← ht]
    exact Pool.getElem?_other hi

theorem Mindful.start {s : σ} {ts : List (Thread κ S E α)} {t : Thread κ S E α}
    (h : Mindful K M s₀ Q ⟨s, ts⟩)
    (ht : ∀ s, K.inv s → t.code.minding K (M t.tag) ∅ (Q t.tag) s) :
    Mindful K M s₀ Q ⟨s, ts ++ [t]⟩ := by
  obtain ⟨hinv, hkept, held, hdisjoint, hbefore, hlive, hnone, hthreads⟩ := h
  refine ⟨hinv, hkept, held, hdisjoint, hbefore, hlive, fun i hi => hnone i ?_, ?_⟩
  · simp only [List.length_append, List.length_singleton] at hi
    show ts.length ≤ i
    omega
  · intro i u hu s' hs' hrely
    rcases Pool.getElem?_started hu with hu | ⟨hi, rfl⟩
    · exact hthreads i u hu s' hs' hrely
    · rw [hnone i hi]
      exact ht s' hs'

theorem Mindful.step (hstarts : ∀ t, starts t → ∀ s, K.inv s → t.code.minding K (M t.tag) ∅ (Q t.tag) s)
    (h : Mindful K M s₀ Q p) (hstep : Pool.Step starts (Thread.Act M) p p') :
    K.rely ∅ p.shared p'.shared ∧ Mindful K M s₀ Q p' := by
  cases hstep with
  | start ht => exact ⟨K.refl _ _, h.start (hstarts _ ht)⟩
  | act hact =>
      cases hact with
      | step hstep =>
          cases hstep with
          | answer ha => exact h.answer ha
          | undo => exact ⟨K.refl _ _, h.undo⟩

/-- **The threads stay in order in every run.** -/
theorem Mindful.runs (hstarts : ∀ t, starts t → ∀ s, K.inv s → t.code.minding K (M t.tag) ∅ (Q t.tag) s)
    (h : Mindful K M s₀ Q p) (hruns : Pool.Runs starts (Thread.Act M) p p') :
    K.rely ∅ p.shared p'.shared ∧ Mindful K M s₀ Q p' := by
  induction hruns with
  | refl => exact ⟨K.refl _ _, h⟩
  | tail _ hstep ih =>
      obtain ⟨hrely, hmindful⟩ := ih
      obtain ⟨hrely', hmindful'⟩ := hmindful.step hstarts hstep
      exact ⟨K.trans _ _ _ _ hrely hrely', hmindful'⟩

/-- Before any thread has come. -/
theorem mindful_nil (hinv : K.inv s₀) : Mindful K M s₀ Q ⟨s₀, []⟩ := by
  refine ⟨hinv, K.refl _ _, fun _ => ∅, fun _ _ _ => Set.disjoint_empty _, fun _ => Set.disjoint_empty _,
    ?_, fun _ _ => rfl, ?_⟩
  · intro g
    simp
  · intro i t ht
    simp at ht

/-- A thread that has ended has done what its postcondition says. -/
theorem Mindful.finished (h : Mindful K M s₀ Q p) {t : Thread κ S E α} (ht : t ∈ p.threads)
    {r : Except E α} (hr : t.code = Program.ofResult r) : ∃ A, Q t.tag r A p.shared := by
  obtain ⟨hinv, -, held, -, -, -, -, hthreads⟩ := h
  obtain ⟨i, hi⟩ := List.mem_iff_getElem?.1 ht
  have hminding := hthreads i t hi p.shared hinv (K.refl _ _)
  rw [hr] at hminding
  cases r with
  | ok a => exact ⟨_, hminding⟩
  | error e => exact ⟨_, hminding⟩

/-- When all have ended, a right is one from before or that of a thread. -/
theorem Mindful.owner (h : Mindful K M s₀ Q p) (hall : ∀ t ∈ p.threads, t.Finished) {g : H}
    (hg : g ∈ K.live p.shared) (hg₀ : g ∉ K.live s₀) :
    ∃ t ∈ p.threads, ∃ r A, g ∈ A ∧ Q t.tag r A p.shared := by
  obtain ⟨hinv, -, held, -, -, hlive, hnone, hthreads⟩ := h
  obtain ⟨i, hi⟩ := ((hlive g).1 hg).resolve_left hg₀
  have hlt : i < p.threads.length := by
    by_contra hge
    rw [hnone i (by omega)] at hi
    exact hi
  have ht : p.threads[i]? = some p.threads[i] := List.getElem?_eq_getElem hlt
  obtain ⟨r, hr⟩ := hall _ (List.getElem_mem hlt)
  have hminding := hthreads i _ ht p.shared hinv (K.refl _ _)
  rw [hr] at hminding
  refine ⟨p.threads[i], List.getElem_mem hlt, r, held i, hi, ?_⟩
  cases r with
  | ok a => exact hminding
  | error e => exact hminding

/-! ## One thread at a time -/

/-- What a thread does alone is a run of the pool. -/
theorem runs_of_steps {s s' : σ} {xs ys : List (Thread κ S E α)} {tag : κ} {code code' : Program S E α}
    {b : Faults} (h : Program.Steps (M tag) .never code s b code' s') :
    Pool.Runs starts (Thread.Act M) ⟨s, xs ++ ⟨tag, code⟩ :: ys⟩ ⟨s', xs ++ ⟨tag, code'⟩ :: ys⟩ := by
  generalize hb₀ : Faults.never = b₀ at h
  induction h with
  | refl => exact .refl
  | step hstep _ ih =>
      subst hb₀
      have hnever := (Program.Steps.step hstep .refl).never rfl
      subst hnever
      exact .head (.act (.step hstep)) (ih rfl)

namespace Program

variable {τ : Type} {M : Machine S σ} {view : τ → σ}

/-- The run under a driver up to the first such call, and the program from there on. -/
def advance (D : Driver M τ view) (P : S.Call → Bool) :
    Program S E α → τ → Option (Program S E α × τ)
  | .done _, _ => none
  | .raise _, _ => none
  | .undo _, _ => none
  | .call c next, t =>
      if P c then some (.call c next, t)
      else if D.valid c t then advance D P (next (D.reply c t).1) (D.reply c t).2
      else none

theorem advance_steps (D : Driver M τ view) {P : S.Call → Bool} {p p' : Program S E α} {t t' : τ}
    {b : Faults} (h : advance D P p t = some (p', t')) : Steps M b p (view t) b p' (view t') := by
  induction p generalizing t with
  | done a => exact nomatch h
  | raise e => exact nomatch h
  | undo p => exact nomatch h
  | call c next ih =>
      rw [advance] at h
      split at h
      · cases h
        exact .refl
      · split at h
        · next hv => exact .step (.answer (D.sound c t hv)) (ih _ h)
        · exact nomatch h

end Program

end Elyra.Posix
