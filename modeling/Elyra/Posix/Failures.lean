import Elyra.Posix.Program

set_option autoImplicit false

/-! # The failures a program lets through

A failure of a call is dealt with where the call stands, or it is fatal: `fatal` says which. `tracks`
follows a program through every result a call is `allowed` to have, carrying a mark that tells whether
a fatal failure was met; its postcondition is about the mark and the end. In an environment the mark
of a run is read off the failures it has met (`tracks_execute`). -/

namespace Elyra.Posix.Program

variable {S : Interface} {E E' α β σ : Type}

/-! ## The failures of a run -/

/-- What an answer adds to the failures met. -/
def failureOf (c : S.Call) : Except S.Failure (S.Answer c) → List (S.Call × S.Failure)
  | .ok _ => []
  | .error f => [(c, f)]

/-- The failures that the run of `execute` meets, in their order. -/
def met (env : Nat → (c : S.Call) → σ → Except S.Failure (S.Answer c) × σ) :
    Program S E α → Nat → σ → List (S.Call × S.Failure)
  | .done _, _, _ => []
  | .raise _, _, _ => []
  | .call c next, n, s =>
      failureOf c (env n c s).1 ++ met env (next (env n c s).1) (n + 1) (env n c s).2
  | .undo p, n, s => met env p n s

/-! ## Following a program -/

/-- `Q` holds at every end, of the mark and of the result. -/
def tracks (allowed : (c : S.Call) → Except S.Failure (S.Answer c) → Prop)
    (fatal : S.Call → S.Failure → Bool) :
    Program S E α → Bool → (Bool → Except E α → Prop) → Prop
  | .done a, marked, Q => Q marked (.ok a)
  | .raise e, marked, Q => Q marked (.error e)
  | .call c next, marked, Q =>
      (∀ a, allowed c (.ok a) → tracks allowed fatal (next (.ok a)) marked Q) ∧
        ∀ f, allowed c (.error f) → tracks allowed fatal (next (.error f)) (marked || fatal c f) Q
  | .undo p, marked, Q => tracks allowed fatal p marked Q

variable {allowed : (c : S.Call) → Except S.Failure (S.Answer c) → Prop}
  {fatal : S.Call → S.Failure → Bool}

theorem tracks_mono {p : Program S E α} {marked : Bool} {Q Q' : Bool → Except E α → Prop}
    (hQ : ∀ b r, Q b r → Q' b r) (h : tracks allowed fatal p marked Q) :
    tracks allowed fatal p marked Q' := by
  induction p generalizing marked with
  | done a => exact hQ _ _ h
  | raise e => exact hQ _ _ h
  | call c next ih => exact ⟨fun a ha => ih _ (h.1 a ha), fun f hf => ih _ (h.2 f hf)⟩
  | undo p ih => exact ih h

/-- The postcondition that goes on with `g` when the program returns. -/
def tracksThen (allowed : (c : S.Call) → Except S.Failure (S.Answer c) → Prop)
    (fatal : S.Call → S.Failure → Bool)
    (g : α → Program S E β) (Q : Bool → Except E β → Prop) : Bool → Except E α → Prop
  | marked, .ok a => tracks allowed fatal (g a) marked Q
  | marked, .error e => Q marked (.error e)

theorem tracks_bind {p : Program S E α} {g : α → Program S E β} {marked : Bool}
    {Q : Bool → Except E β → Prop}
    (h : tracks allowed fatal p marked (tracksThen allowed fatal g Q)) :
    tracks allowed fatal (p >>= g) marked Q := by
  show tracks allowed fatal (p.bind g) marked Q
  induction p generalizing marked with
  | done a => exact h
  | raise e => exact h
  | call c next ih => exact ⟨fun a ha => ih _ (h.1 a ha), fun f hf => ih _ (h.2 f hf)⟩
  | undo p ih => exact ih h

/-- The postcondition that goes on with the handler when the program raises. -/
def tracksOr (allowed : (c : S.Call) → Except S.Failure (S.Answer c) → Prop)
    (fatal : S.Call → S.Failure → Bool)
    (handler : E → Program S E' α) (Q : Bool → Except E' α → Prop) : Bool → Except E α → Prop
  | marked, .ok a => Q marked (.ok a)
  | marked, .error e => tracks allowed fatal (handler e) marked Q

theorem tracks_orElse {p : Program S E α} {handler : E → Program S E' α} {marked : Bool}
    {Q : Bool → Except E' α → Prop}
    (h : tracks allowed fatal p marked (tracksOr allowed fatal handler Q)) :
    tracks allowed fatal (p.orElse handler) marked Q := by
  induction p generalizing marked with
  | done a => exact h
  | raise e => exact h
  | call c next ih => exact ⟨fun a ha => ih _ (h.1 a ha), fun f hf => ih _ (h.2 f hf)⟩
  | undo p ih => exact ih h

/-! ## Soundness -/

/-- The mark of a run is whether it has met a fatal failure. -/
theorem tracks_execute {env : Nat → (c : S.Call) → σ → Except S.Failure (S.Answer c) × σ}
    (henv : ∀ n c s, allowed c (env n c s).1) {p : Program S E α} {marked : Bool}
    {Q : Bool → Except E α → Prop} (h : tracks allowed fatal p marked Q) (n : Nat) (s : σ) :
    Q (marked || (met env p n s).any fun m => fatal m.1 m.2) (execute env p n s).1 := by
  induction p generalizing marked n s with
  | done a =>
      simp only [met, List.any_nil, Bool.or_false]
      exact h
  | raise e =>
      simp only [met, List.any_nil, Bool.or_false]
      exact h
  | call c next ih =>
      have hallowed := henv n c s
      simp only [met, List.any_append, ← Bool.or_assoc, execute]
      cases hanswer : (env n c s).1 with
      | ok a =>
          rw [hanswer] at hallowed
          simp only [failureOf, List.any_nil, Bool.or_false]
          exact ih _ (h.1 a hallowed) _ _
      | error f =>
          rw [hanswer] at hallowed
          simp only [failureOf, List.any_cons, List.any_nil, Bool.or_false]
          exact ih _ (h.2 f hallowed) _ _
  | undo p ih => exact ih h n s

end Elyra.Posix.Program
