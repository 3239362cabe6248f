import Elyra.Posix.Program

set_option autoImplicit false

/-! # What a program returns

What is known of the values a program returns when nothing is known of the interface: the calls may be
answered in any way, and may fail in any way and any number of times. -/

namespace Elyra.Posix.Program

variable {S : Interface} {E E' α β σ : Type}

/-- Whatever the program is answered, a value that it returns has the property. -/
def Gives (P : α → Prop) : Program S E α → Prop
  | .done a => P a
  | .raise _ => True
  | .call _ next => ∀ r, Gives P (next r)
  | .undo p => Gives P p

variable {P : α → Prop} {Q : β → Prop}

theorem Gives.mono {P' : α → Prop} {p : Program S E α} (h : Gives P p) (hP : ∀ a, P a → P' a) :
    Gives P' p := by
  induction p with
  | done a => exact hP a h
  | raise e => trivial
  | call c next ih => exact fun r => ih r (h r)
  | undo p ih => exact ih h

theorem Gives.bind {p : Program S E α} {f : α → Program S E β} (h : Gives P p)
    (hf : ∀ a, P a → Gives Q (f a)) : Gives Q (p >>= f) := by
  show Gives Q (p.bind f)
  induction p with
  | done a => exact hf a h
  | raise e => trivial
  | call c next ih => exact fun r => ih r (h r)
  | undo p ih => exact ih h

theorem Gives.orElse {p : Program S E α} {handler : E → Program S E' α} (h : Gives P p)
    (hh : ∀ e, Gives P (handler e)) : Gives P (p.orElse handler) := by
  induction p with
  | done a => exact h
  | raise e => exact hh e
  | call c next ih => exact fun r => ih r (h r)
  | undo p ih => exact ih h

/-- Nothing is known. -/
theorem gives_any (p : Program S E α) : Gives (fun _ => True) p := by
  induction p with
  | done a => trivial
  | raise e => trivial
  | call c next ih => exact ih
  | undo p ih => exact ih

/-- What comes after a part of which nothing is used. -/
theorem gives_then {p : Program S E α} {f : α → Program S E β} (hf : ∀ a, Gives Q (f a)) :
    Gives Q (p >>= f) := (gives_any p).bind fun a _ => hf a

/-- **Every run that returns, on any machine and with any faults, returns such a value.** -/
theorem Gives.ends {M : Machine S σ} {b : Faults} {p : Program S E α} {s s' : σ} {a : α}
    (h : Gives P p) (he : Ends M b p s (.ok a) s') : P a := by
  obtain ⟨b', hsteps⟩ := he
  generalize hq : ofResult (S := S) (.ok a : Except E α) = q at hsteps
  induction hsteps with
  | refl =>
      subst hq
      exact h
  | step hstep _ ih =>
      refine ih ?_ hq
      cases hstep with
      | answer ha => exact h _
      | fail hf => exact h _
      | undo => exact h

end Elyra.Posix.Program
