import Mathlib.Algebra.Order.BigOperators.Group.List
import Mathlib.Data.Multiset.OrderedMonoid
import Elyra.Posix.Pool
import Elyra.Posix.Program

set_option autoImplicit false

/-! # Handles

Threads that run programs and hand handles to each other through a shared state. A call uses handles,
takes some from its thread and gives it others (`Handling`); in between a thread holds what it has been
given. A program is `careful` if it uses and hands over only what it holds, whatever the calls return.

If the calls keep accounts, that is, if the live handles are at any time those kept in the shared state
and those held by the threads, the accounts are in order in every run (`Accounts.runs`). -/

namespace Elyra.Posix

structure Handling (S : Interface) (H : Type) where
  uses : S.Call → Multiset H
  takes : (c : S.Call) → Except S.Failure (S.Answer c) → Multiset H
  gives : (c : S.Call) → Except S.Failure (S.Answer c) → Multiset H

variable {S : Interface} {E E' α β κ σ H : Type} [DecidableEq H]

/-- What a thread holds after a call. -/
def Handling.after (K : Handling S H) (c : S.Call) (r : Except S.Failure (S.Answer c))
    (held : Multiset H) : Multiset H := held - K.takes c r + K.gives c r

/-! ## Careful programs -/

namespace Program

/-- The program uses and hands over only what it holds, and `Q` says what it holds at its end. -/
def careful (K : Handling S H) (valid : (c : S.Call) → Except S.Failure (S.Answer c) → Prop) :
    Program S E α → Multiset H → (Except E α → Multiset H → Prop) → Prop
  | .done a, held, Q => Q (.ok a) held
  | .raise e, held, Q => Q (.error e) held
  | .call c next, held, Q =>
      K.uses c ≤ held ∧ ∀ r, valid c r →
        K.takes c r ≤ held ∧ careful K valid (next r) (K.after c r held) Q
  | .undo p, held, Q => careful K valid p held Q

variable {K : Handling S H} {valid : (c : S.Call) → Except S.Failure (S.Answer c) → Prop}
  {held : Multiset H}

theorem careful_mono {p : Program S E α} {Q Q' : Except E α → Multiset H → Prop}
    (hQ : ∀ r held, Q r held → Q' r held) (h : careful K valid p held Q) :
    careful K valid p held Q' := by
  induction p generalizing held with
  | done a => exact hQ _ _ h
  | raise e => exact hQ _ _ h
  | call c next ih => exact ⟨h.1, fun r hr => ⟨(h.2 r hr).1, ih r (h.2 r hr).2⟩⟩
  | undo p ih => exact ih h

/-- The postcondition that goes on with `g` when the program returns. -/
def carefulThen (K : Handling S H) (valid : (c : S.Call) → Except S.Failure (S.Answer c) → Prop)
    (g : α → Program S E β) (Q : Except E β → Multiset H → Prop) :
    Except E α → Multiset H → Prop
  | .ok a, held => careful K valid (g a) held Q
  | .error e, held => Q (.error e) held

theorem careful_bind {p : Program S E α} {g : α → Program S E β}
    {Q : Except E β → Multiset H → Prop} (h : careful K valid p held (carefulThen K valid g Q)) :
    careful K valid (p >>= g) held Q := by
  show careful K valid (p.bind g) held Q
  induction p generalizing held with
  | done a => exact h
  | raise e => exact h
  | call c next ih => exact ⟨h.1, fun r hr => ⟨(h.2 r hr).1, ih r (h.2 r hr).2⟩⟩
  | undo p ih => exact ih h

/-- The postcondition that goes on with the handler when the program raises. -/
def carefulOr (K : Handling S H) (valid : (c : S.Call) → Except S.Failure (S.Answer c) → Prop)
    (handler : E → Program S E' α) (Q : Except E' α → Multiset H → Prop) :
    Except E α → Multiset H → Prop
  | .ok a, held => Q (.ok a) held
  | .error e, held => careful K valid (handler e) held Q

theorem careful_orElse {p : Program S E α} {handler : E → Program S E' α}
    {Q : Except E' α → Multiset H → Prop}
    (h : careful K valid p held (carefulOr K valid handler Q)) :
    careful K valid (p.orElse handler) held Q := by
  induction p generalizing held with
  | done a => exact h
  | raise e => exact h
  | call c next ih => exact ⟨h.1, fun r hr => ⟨(h.2 r hr).1, ih r (h.2 r hr).2⟩⟩
  | undo p ih => exact ih h

/-- A program whose calls only use what is held all the time. -/
theorem careful_of_only {P : S.Call → Prop} (huses : ∀ c, P c → K.uses c ≤ held)
    (htakes : ∀ c r, P c → K.takes c r = 0) (hgives : ∀ c r, P c → K.gives c r = 0)
    {p : Program S E α} (h : Only P p) : careful K valid p held fun _ held' => held' = held := by
  induction p with
  | done a => rfl
  | raise e => rfl
  | call c next ih =>
      obtain ⟨hc, hnext⟩ := h
      refine ⟨huses c hc, fun r _ => ?_⟩
      have hafter : K.after c r held = held := by
        rw [Handling.after, htakes c r hc, hgives c r hc, Multiset.sub_zero, add_zero]
      rw [hafter, htakes c r hc]
      exact ⟨Multiset.zero_le _, ih r (hnext r)⟩
  | undo p ih => exact ih h

end Program

/-! ## Threads that hold handles -/

/-- A thread: what is left of its program, and what it holds. -/
structure Holder (κ : Type) (S : Interface) (E α H : Type) where
  tag : κ
  code : Program S E α
  held : Multiset H

/-- The thread has come to an end. -/
def Holder.Finished (t : Holder κ S E α H) : Prop := ∃ r, t.code = Program.ofResult r

/-- What a thread does in one step: a call, or anything that concerns nobody's handles. -/
inductive Holder.Act (K : Handling S H)
    (answers : σ → (c : S.Call) → Except S.Failure (S.Answer c) → σ → Prop)
    (outside : σ → σ → Prop) :
    σ → Holder κ S E α H → σ → Holder κ S E α H → Prop
  | call {s s' c next r tag held} : answers s c r s' →
      Act K answers outside s ⟨tag, .call c next, held⟩ s' ⟨tag, next r, K.after c r held⟩
  | undo {s p tag held} : Act K answers outside s ⟨tag, .undo p, held⟩ s ⟨tag, p, held⟩
  | outside {s s' t} : outside s s' → Act K answers outside s t s' t

/-- The calls keep accounts: `live` handles are the `kept` ones and those the threads hold. -/
structure Accounts (K : Handling S H)
    (answers : σ → (c : S.Call) → Except S.Failure (S.Answer c) → σ → Prop)
    (outside : σ → σ → Prop) (I : σ → Prop) (live kept : σ → Multiset H) : Prop where
  call : ∀ {s c r s' held rest}, answers s c r s' → I s → K.uses c ≤ held → K.takes c r ≤ held →
    live s = kept s + held + rest →
      I s' ∧ live s' = kept s' + K.after c r held + rest
  outside : ∀ {s s'}, outside s s' → I s → I s' ∧ live s' = live s ∧ kept s' = kept s

/-- The accounts are in order, and every thread is careful with what it holds. -/
structure InOrder (K : Handling S H)
    (valid : (c : S.Call) → Except S.Failure (S.Answer c) → Prop) (I : σ → Prop)
    (live kept : σ → Multiset H) (Q : κ → Except E α → Multiset H → Prop)
    (p : Pool σ (Holder κ S E α H)) : Prop where
  shared : I p.shared
  live : live p.shared = kept p.shared + (p.threads.map Holder.held).sum
  careful : ∀ t ∈ p.threads, t.code.careful K valid t.held (Q t.tag)

variable {K : Handling S H} {valid : (c : S.Call) → Except S.Failure (S.Answer c) → Prop}
  {answers : σ → (c : S.Call) → Except S.Failure (S.Answer c) → σ → Prop}
  {outside : σ → σ → Prop} {I : σ → Prop} {live kept : σ → Multiset H}
  {Q : κ → Except E α → Multiset H → Prop} {starts : Holder κ S E α H → Prop}

theorem Accounts.act {s s' : σ} {t t' : Holder κ S E α H}
    (hA : Accounts K answers outside I live kept) (hvalid : ∀ s c r s', answers s c r s' → valid c r)
    (hact : Holder.Act K answers outside s t s' t') (hI : I s) {rest : Multiset H}
    (hlive : live s = kept s + t.held + rest) (hcareful : t.code.careful K valid t.held (Q t.tag)) :
    I s' ∧ live s' = kept s' + t'.held + rest ∧ t'.code.careful K valid t'.held (Q t'.tag) := by
  cases hact with
  | call h =>
      obtain ⟨huses, hnext⟩ := hcareful
      obtain ⟨htakes, hcode⟩ := hnext _ (hvalid _ _ _ _ h)
      obtain ⟨hI', hlive'⟩ := hA.call h hI huses htakes hlive
      exact ⟨hI', hlive', hcode⟩
  | undo => exact ⟨hI, hlive, hcareful⟩
  | outside h =>
      obtain ⟨hI', hl, hk⟩ := hA.outside h hI
      exact ⟨hI', by rw [hl, hk, hlive], hcareful⟩

/-- **The accounts are in order in every run.** -/
theorem Accounts.runs {p p' : Pool σ (Holder κ S E α H)}
    (hA : Accounts K answers outside I live kept) (hvalid : ∀ s c r s', answers s c r s' → valid c r)
    (hstarts : ∀ t, starts t → t.held = 0 ∧ t.code.careful K valid 0 (Q t.tag))
    (hruns : Pool.Runs starts (Holder.Act K answers outside) p p')
    (h : InOrder K valid I live kept Q p) : InOrder K valid I live kept Q p' := by
  induction hruns with
  | refl => exact h
  | tail _ hstep ih =>
      obtain ⟨hI, hlive, hcareful⟩ := ih
      cases hstep with
      | @start s ts t ht =>
          obtain ⟨hheld, hcode⟩ := hstarts t ht
          refine ⟨hI, ?_, fun u hu => ?_⟩
          · rw [hlive]
            simp [hheld]
          · rcases List.mem_append.1 hu with hu | hu
            · exact hcareful u hu
            · obtain rfl := List.mem_singleton.1 hu
              rw [hheld]
              exact hcode
      | @act s s' xs ys t t' hact =>
          have hsplit : ∀ u : Holder κ S E α H, ((xs ++ u :: ys).map Holder.held).sum =
              u.held + ((xs.map Holder.held).sum + (ys.map Holder.held).sum) := by
            intro u
            simp only [List.map_append, List.map_cons, List.sum_append, List.sum_cons]
            abel
          have hlive' : live s = kept s + t.held +
              ((xs.map Holder.held).sum + (ys.map Holder.held).sum) := by
            rw [add_assoc, ← hsplit t]
            exact hlive
          obtain ⟨hI', hlive', hcode⟩ := hA.act hvalid hact hI hlive' (hcareful t (by simp))
          refine ⟨hI', ?_, fun u hu => ?_⟩
          · rw [hsplit t', ← add_assoc]
            exact hlive'
          · rcases List.mem_append.1 hu with hu | hu
            · exact hcareful u (List.mem_append_left _ hu)
            · rcases List.mem_cons.1 hu with rfl | hu
              · exact hcode
              · exact hcareful u (List.mem_append_right _ (List.mem_cons_of_mem _ hu))

/-- What a thread holds is live, and nobody else has it. -/
theorem InOrder.held_live {p : Pool σ (Holder κ S E α H)}
    (h : InOrder K valid I live kept Q p) {t : Holder κ S E α H} (ht : t ∈ p.threads) :
    kept p.shared + t.held ≤ live p.shared := by
  rw [h.live]
  exact add_le_add_right (List.single_le_sum (fun _ _ => Multiset.zero_le _) _
    (List.mem_map_of_mem ht)) _

/-- A thread that has ended holds what its postcondition says. -/
theorem InOrder.finished {p : Pool σ (Holder κ S E α H)} (h : InOrder K valid I live kept Q p)
    {t : Holder κ S E α H} (ht : t ∈ p.threads) {r : Except E α}
    (hr : t.code = Program.ofResult r) : Q t.tag r t.held := by
  have hcareful := h.careful t ht
  rw [hr] at hcareful
  cases r with
  | ok a => exact hcareful
  | error e => exact hcareful

end Elyra.Posix
