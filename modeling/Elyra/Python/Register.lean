import Elyra.Python.Dict

set_option autoImplicit false

/-! # Reading pairs into a dictionary

A scan that keeps the value of each key in a dictionary and stops at a key that comes with a second
value. The dictionary holds the pairs read (`Recorded`), so the scan stops exactly where two of the
pairs disagree (`Functional`), whichever came first. -/

namespace Elyra.Python

variable {κ α : Type}

/-- No key has two values. -/
def Functional (ps : List (κ × α)) : Prop := ∀ p ∈ ps, ∀ q ∈ ps, p.1 = q.1 → p.2 = q.2

theorem Functional.mono {ps qs : List (κ × α)} (h : Functional qs) (hsub : ps ⊆ qs) :
    Functional ps := fun p hp q hq => h p (hsub hp) q (hsub hq)

section Scan

variable [DecidableEq κ]

/-- The dictionary holds the pairs. -/
def Recorded (d : Dict κ α) (ps : List (κ × α)) : Prop := ∀ k v, d.get? k = some v ↔ (k, v) ∈ ps

variable {d : Dict κ α} {ps : List (κ × α)} {k : κ} {v : α}

theorem Recorded.empty : Recorded (Dict.empty : Dict κ α) [] := fun k v => by simp

theorem Recorded.functional (h : Recorded d ps) : Functional ps := by
  rintro ⟨k, v⟩ hp ⟨k', w⟩ hq rfl
  exact Option.some.inj (((h k v).2 hp).symm.trans ((h k w).2 hq))

variable [DecidableEq α]

/-- `not (k in d and d[k] != v)` -/
def Dict.agrees (d : Dict κ α) (k : κ) (v : α) : Bool :=
  match d.get? k with
  | none => true
  | some w => w == v

/-- `d[k] = v`, unless the key has another value. -/
def Dict.note {ε : Type} (d : Dict κ α) (k : κ) (v : α) (e : ε) : Except ε (Dict κ α) :=
  if d.agrees k v then .ok (d.set k v) else .error e

/-- A pair that is noted joins the ones before it. -/
theorem Recorded.note {ε : Type} {e : ε} {d' : Dict κ α} (h : Recorded d ps)
    (hnote : d.note k v e = .ok d') : Recorded d' ((k, v) :: ps) := by
  unfold Dict.note at hnote
  split at hnote
  · next hagree =>
    obtain rfl := Except.ok.inj hnote
    intro k' v'
    rw [Dict.get?_set, List.mem_cons, Prod.mk.injEq]
    split
    · next hk =>
        subst hk
        constructor
        · exact fun hv => .inl ⟨rfl, (Option.some.inj hv).symm⟩
        · rintro (⟨-, rfl⟩ | hmem)
          · rfl
          · have hget := (h k' v').2 hmem
            rw [Dict.agrees, hget] at hagree
            rw [beq_iff_eq.1 hagree]
    · next hk => rw [h k' v', or_iff_right fun hkv => hk hkv.1]
  · cases hnote

theorem Recorded.note_of_functional {ε : Type} (e : ε) (h : Recorded d ps)
    (hf : Functional ((k, v) :: ps)) : ∃ d', d.note k v e = .ok d' := by
  have hagree : d.agrees k v = true := by
    unfold Dict.agrees
    split
    · rfl
    · next w hw =>
        have hmem := List.mem_cons_of_mem (k, v) ((h k w).1 hw)
        exact beq_iff_eq.2 (hf _ hmem _ (List.mem_cons_self ..) rfl)
  exact ⟨d.set k v, if_pos hagree⟩

end Scan

end Elyra.Python
