import Elyra.Quarantine.Reading
import Elyra.Quarantine.Steps

set_option autoImplicit false

/-! # The manager in a storm

The host while others are at work: before every call they may write into one file and give one name to
files of their own, and every call may fail. What they leave alone is stable (`Stable`), and one rule
per kind of call carries a stable assertion from call to call. -/

namespace Elyra.Quarantine

open Elyra.Python Elyra.Posix Elyra.Posix.Program

variable {F : Type} {α : Type}

/-! ## Others -/

/-- What happens during a call besides the call. -/
structure Storm where
  /-- The file others write into. -/
  payload : Option Nat := none
  /-- The name others give to files of their own, or take away. -/
  destination : Option Path := none
  /-- Their files are numbered below: numbers are handed out before the call. -/
  old : Nat := 0
  /-- `fstat` can fail on the file that has just been created. -/
  blind : Bool := false
  /-- What `_utc_iso` can return. -/
  clock : PyStr → Prop := fun _ => True

/-- What others do between two calls. -/
structure Intrusion (o : Storm) (f g : Files Path) : Prop where
  names : ∀ q, o.destination ≠ some q → g.names q = f.names q
  own : ∀ q, g.names q = f.names q ∨ ∀ i, g.names q = some i → i < o.old
  used : g.used = f.used
  nodes : ∀ i, o.payload ≠ some i → (f.nodes i).Same (g.nodes i)

theorem Intrusion.refl (o : Storm) (f : Files Path) : Intrusion o f f :=
  ⟨fun _ _ => rfl, fun _ => .inl rfl, rfl, fun _ _ => .refl _⟩

theorem Intrusion.trans {o : Storm} {f g h : Files Path} (hfg : Intrusion o f g)
    (hgh : Intrusion o g h) : Intrusion o f h := by
  refine ⟨fun q hq => (hgh.names q hq).trans (hfg.names q hq), ?_, hgh.used.trans hfg.used,
    fun i hi => (hfg.nodes i hi).trans (hgh.nodes i hi)⟩
  intro q
  rcases hgh.own q with h | h
  · rcases hfg.own q with h' | h'
    · exact .inl (h.trans h')
    · exact .inr fun i hi => h' i (h ▸ hi)
  · exact .inr h

/-- Others do not affect it. -/
def Stable (o : Storm) (J : Files Path → Prop) : Prop := ∀ f g, Intrusion o f g → J f → J g

theorem stable_intrusion (o : Storm) (f₀ : Files Path) : Stable o (Intrusion o f₀) :=
  fun _ _ h hf => hf.trans h

/-! ## The machine -/

/-- The files, and whether the last call has created one. -/
structure Weather where
  files : Files Path
  fresh : Bool

def creates : Call F → Bool
  | .file (.openNew _) => true
  | _ => false

def isFstat : Call F → Bool
  | .file (.fstat _) => true
  | _ => false

/-- Nobody foresees a token: the name others use is none of its temporary names. The time is one that
    the clock shows. -/
def Unguessed (o : Storm) : (c : Call F) → Except Exc c.Answer → Prop
  | .token, .ok token => ∀ dir id, o.destination ≠ some ⟨dir, temporaryName id token⟩
  | .utcIso _, .ok text => o.clock text
  | _, _ => True

/-- The call can fail. -/
def Exposed (o : Storm) (fresh : Bool) (c : Call F) : Prop :=
  fresh = true → isFstat c = true → o.blind = true

/-- The host in a storm. -/
def stormy [PyFloat F] (o : Storm) (uuid : PyStr) : Machine (interface F) Weather where
  answers c t r t' := ∃ g, Intrusion o t.files g ∧
    ((machine uuid fun _ _ => True).answers c g r t'.files ∧ Unguessed o c r ∧
        t'.fresh = (creates c && r.isOk) ∨
      (∃ e, r = .error e ∧ canFail c e) ∧ Exposed o t.fresh c ∧ t' = ⟨g, false⟩)
  fails _ _ := False

theorem answers_error {c : FileCall Path Directory} {f f' : Files Path} {e : Errno}
    (h : f.answers c (.error e) f') : f' = f := by
  cases c with
  | lstat p => exact h.1
  | lexists p => exact h.1
  | openRead p => exact h.1
  | openFile p => exact h.1
  | openNew p =>
      simp only [Files.answers] at h
      split at h
      · exact h.1
      · exact absurd h.1 (by simp)
  | fstat fd => exact h.1
  | readAll fd => exact h.1
  | readHead fd n => exact h.1
  | write fd data =>
      obtain ⟨_, _, _, _, _, hr, _⟩ := h
      exact absurd hr (by simp)
  | fchmod fd mode =>
      obtain ⟨_, hr, _⟩ := h
      exact absurd hr (by simp)
  | fchown fd uid gid =>
      obtain ⟨_, hr, _⟩ := h
      exact absurd hr (by simp)
  | fsync fd => exact h.1
  | rename src dst =>
      rcases h with h | h
      · exact h.1
      · split at h
        · exact h.1
        · exact h.1
        · exact absurd h.1 (by simp)
  | link src dst =>
      simp only [Files.answers] at h
      split at h
      · exact h.1
      · exact h.1
      · exact absurd h.1 (by simp)
  | unlink p =>
      simp only [Files.answers] at h
      split at h
      · exact h.1
      · split at h
        · obtain ⟨_, hf, _⟩ := h
          exact hf
        · exact absurd h.1 (by simp)
  | replace src dst =>
      simp only [Files.answers] at h
      split at h
      · exact h.1
      · split at h
        · exact absurd h.1 (by simp)
        · split at h
          · exact h.1
          · split at h
            · obtain ⟨_, hf, _⟩ := h
              exact hf
            · exact absurd h.1 (by simp)
  | chmod p mode =>
      simp only [Files.answers] at h
      split at h
      · exact h.1
      · obtain ⟨_, hr, _⟩ := h
        exact absurd hr (by simp)
  | openDir d => exact h.1
  | fsyncDir d => exact h.1

theorem answers_reading [PyFloat F] {uuid : PyStr} {allowed : Call F → Exc → Prop} {c : Call F}
    {f f' : Files Path} {r : Except Exc c.Answer} (hc : Reading c)
    (h : (machine uuid allowed).answers c f r f') : f' = f := by
  cases c with
  | file c =>
      obtain ⟨r₀, h, -⟩ := h
      cases c <;> first | exact h.1 | exact hc.elim
  | resolve d => exact h.1
  | uuid4 => exact h.1
  | token => exact h.1
  | time => exact h.1
  | utcIso t => exact h.1
  | magic p => exact h.1
  | geteuid => exact h.1

/-! ## Rules -/

section Rules

variable [PyFloat F] {o : Storm} {uuid : PyStr} {σ : Type} {calm : Machine (interface F) σ}
  {view : Weather → σ} {E : Type} {t : Weather} {J : Files Path → Prop}

/-- A call: it fails and leaves alone what is stable, or it is answered after the others have acted. -/
theorem storm_ask {c : Call F} {Q : Except Exc c.Answer → Weather → Prop}
    {R : Except Exc c.Answer → σ → Prop} (hstable : Stable o J) (hJ : J t.files)
    (hok : ∀ g a f', J g → (machine uuid fun _ _ => True).answers c g (.ok a) f' →
      Unguessed o c (.ok a) → Q (.ok a) ⟨f', creates c⟩)
    (hfail : ∀ g e, J g → canFail c e →
      Exposed o t.fresh c ∨ (∃ n f', (machine uuid fun _ _ => True).answers c g (.error n) f') →
      Q (.error e) ⟨g, false⟩) :
    survives (stormy o uuid) calm view (ask c) Q R t := by
  rintro r ⟨f', fresh⟩ ⟨g, hg, h⟩
  have hJg : J g := hstable _ _ hg hJ
  rcases h with ⟨h, hun, hfresh⟩ | ⟨⟨e, rfl, he⟩, hexp, ht'⟩
  · cases r with
    | ok a =>
        have hcreates : fresh = creates c := by simpa [Except.isOk, Except.toBool] using hfresh
        subst hcreates
        exact hok g a f' hJg h hun
    | error e =>
        have hcreates : fresh = false := by simpa [Except.isOk, Except.toBool] using hfresh
        subst hcreates
        have hsame : f' = g ∧ canFail c e := by
          cases c with
          | file c =>
              obtain ⟨r₀, h₀, hr⟩ := h
              cases r₀ with
              | ok a => exact absurd hr (by simp [Except.mapError])
              | error n =>
                  cases hr
                  exact ⟨answers_error h₀, n, rfl⟩
          | resolve d => exact absurd h.2 (by simp)
          | uuid4 => exact absurd h.2 (by simp)
          | token =>
              obtain ⟨-, _, -, hr⟩ := h
              exact absurd hr (by simp)
          | time =>
              obtain ⟨-, _, -, hr⟩ := h
              exact absurd hr (by simp)
          | utcIso d =>
              obtain ⟨-, _, -, hr⟩ := h
              exact absurd hr (by simp)
          | magic p =>
              obtain ⟨-, _, -, hr⟩ := h
              exact absurd hr (by simp)
          | geteuid =>
              obtain ⟨-, _, hr⟩ := h
              exact absurd hr (by simp)
        obtain ⟨rfl, hcan⟩ := hsame
        exact hfail f' e hJg hcan (.inr ⟨e, f', h⟩)
  · cases ht'
    exact hfail f' e hJg he (.inl hexp)

/-- Calls that only look leave alone what is stable. -/
theorem storm_plain {p : Program (interface F) E α} {V : α → Prop}
    {R : Except E α → σ → Prop} (hp : Plain Reading p) (hr : Returns V p) (hstable : Stable o J)
    (hJ : J t.files) :
    survives (stormy o uuid) calm view p
      (fun x t' => J t'.files ∧ ∀ a, x = .ok a → V a) R t := by
  refine survives_plain hp hr (J := fun t : Weather => J t.files) ?_ hJ
  rintro c t r t' hc hJ ⟨g, hg, ⟨h, -, -⟩ | ⟨-, -, rfl⟩⟩
  · rw [answers_reading hc h]
    exact hstable _ _ hg hJ
  · exact hstable _ _ hg hJ

theorem storm_sys {c : FileCall Path Directory} {Q : Except Exc c.Answer → Weather → Prop}
    {R : Except Exc c.Answer → σ → Prop} (hstable : Stable o J) (hJ : J t.files)
    (hok : ∀ g a f', J g → g.answers c (.ok a) f' → Q (.ok a) ⟨f', creates (F := F) (.file c)⟩)
    (hfail : ∀ g n, J g → Q (.error (.os n)) ⟨g, false⟩) :
    survives (stormy o uuid) calm view (sys c : Prog F c.Answer) Q R t := by
  refine storm_ask (c := .file c) hstable hJ ?_ ?_
  · rintro g a f' hg ⟨r₀, h, hr⟩ -
    cases r₀ with
    | ok a' =>
        cases hr
        exact hok g a f' hg h
    | error n => exact absurd hr (by simp [Except.mapError])
  · rintro g e hg ⟨n, rfl⟩ -
    exact hfail g n hg

/-- `fstat` of the file that has just been created. -/
theorem storm_fstat_fresh {fd : Nat} {Q : Except Exc Stat → Weather → Prop}
    {R : Except Exc Stat → σ → Prop} (hstable : Stable o J) (hJ : J t.files) (hfresh : t.fresh = true)
    (hok : ∀ g, J g → Q (.ok (g.stat fd)) ⟨g, false⟩)
    (hfail : o.blind = true → ∀ g n, J g → Q (.error (.os n)) ⟨g, false⟩) :
    survives (stormy o uuid) calm view (sys (.fstat fd) : Prog F Stat) Q R t := by
  refine storm_ask (c := .file (.fstat fd)) hstable hJ ?_ ?_
  · rintro g a f' hg ⟨r₀, ⟨rfl, rfl⟩, hr⟩ -
    cases hr
    exact hok _ hg
  · rintro g e hg ⟨n, rfl⟩ (hexp | ⟨e', f', r₀, ⟨-, rfl⟩, hr⟩)
    · exact hfail (hexp hfresh rfl) g n hg
    · exact absurd hr (by simp [Except.mapError])

theorem storm_lexists {p : Path} {Q : Except Exc Bool → Weather → Prop}
    {R : Except Exc Bool → σ → Prop} (hstable : Stable o J) (hJ : J t.files)
    (hok : ∀ g, J g → Q (.ok (g.names p).isSome) ⟨g, false⟩)
    (hfail : ∀ g, J g → Q (.ok false) ⟨g, false⟩) :
    survives (stormy o uuid) calm view (lexists p : Prog F Bool) Q R t := by
  rintro r ⟨f', fresh⟩ ⟨g, hg, ⟨⟨r₀, ⟨hf, rfl⟩, rfl⟩, -, hfresh⟩ | ⟨⟨e, rfl, -⟩, -, ht'⟩⟩
  · have hsame : f' = g := hf
    have hnew : fresh = false := hfresh
    subst hsame hnew
    exact hok f' (hstable _ _ hg hJ)
  · cases ht'
    exact hfail f' (hstable _ _ hg hJ)

theorem storm_lift {x : Except Exc α} {Q : Except Exc α → Weather → Prop}
    {R : Except Exc α → σ → Prop} (h : Q x t) :
    survives (stormy o uuid) calm view (lift x) Q R t := by
  cases x with
  | ok a => exact h
  | error e => exact h

theorem storm_check {ok : Prop} [Decidable ok] {e : Exc} {Q : Except Exc Unit → Weather → Prop}
    {R : Except Exc Unit → σ → Prop} (hok : ok → Q (.ok ()) t) (hraise : ¬ ok → Q (.error e) t) :
    survives (stormy o uuid) calm view (check ok e) Q R t := by
  unfold check
  split
  · next h => exact hok h
  · next h => exact hraise h

omit [PyFloat F] in
theorem unguessed_of_none (hnobody : o.destination = none) (hclock : ∀ text, o.clock text) (c : Call F)
    (r : Except Exc c.Answer) : Unguessed o c r := by
  cases c with
  | token =>
      cases r with
      | ok token =>
          intro dir id
          rw [hnobody]
          simp
      | error e => trivial
  | utcIso time =>
      cases r with
      | ok text => exact hclock text
      | error e => trivial
  | file | resolve | uuid4 | time | magic | geteuid => trivial

/-- A run with at most one failure is a run in a storm in which nobody else does anything. -/
theorem storms_of_steps {p : Prog F α} {b b' : Faults} {f f' : Files Path} {fresh : Bool}
    {x : Except Exc α} (hnobody : o.destination = none) (hclock : ∀ text, o.clock text)
    (hb : b = .never ∨ o.blind = true)
    (h : Steps (machine uuid fun _ _ => True) b p f b' (ofResult x) f') :
    Storms (stormy o uuid) (machine uuid fun _ _ => True) Weather.files p ⟨f, fresh⟩ x f' := by
  generalize hp' : ofResult x = p' at h
  induction h generalizing fresh with
  | @refl b p f =>
      subst hp'
      cases x with
      | ok a => exact Storms.done (t := Weather.mk f fresh)
      | error e => exact Storms.raise (t := Weather.mk f fresh)
  | @step b p f b₁ p₁ f₁ b' p' f' hstep hsteps ih =>
      cases hstep with
      | @answer b c next f r f₁ ha =>
          have hanswer : (stormy o uuid).answers c ⟨f, fresh⟩ r ⟨f₁, creates c && r.isOk⟩ :=
            ⟨f, .refl o f, .inl ⟨ha, unguessed_of_none hnobody hclock c r, rfl⟩⟩
          exact .call hanswer (ih hb hp')
      | @fail c next f e hf =>
          have hanswer : (stormy o uuid).answers c ⟨f, fresh⟩ (.error e) ⟨f, false⟩ := by
            refine ⟨f, .refl o f, .inr ⟨⟨e, rfl, hf.1⟩, ?_, rfl⟩⟩
            intro _ _
            exact hb.resolve_left (by simp)
          exact .call hanswer (ih (.inl rfl) hp')
      | undo =>
          subst hp'
          exact .undo ⟨_, hsteps⟩

end Rules

end Elyra.Quarantine
