import Mathlib.Logic.Function.Basic
import Elyra.Signatures.Rules

set_option autoImplicit false

/-! # The bundle store

`RuleBundleStore` of `signatures/rules.py` as a program over three files: the bundle that is
installed, its backup and the temporary file an install writes. Any step may fail where it is said
to be `faulty`, a write after any part of its data. `install_post` says all that an install does. -/

namespace Elyra.Signatures

open Elyra.Python Elyra.Posix Elyra.Posix.Program

variable {F : Type} {α : Type}

/-! ## Files -/

/-- `path`, `path.with_suffix(path.suffix + ".bak")` and the temporary file beside them. -/
inductive Place where
  | installed
  | backup
  | temporary
  deriving DecidableEq, Repr

/-- The bytes of each file that exists. -/
abbrev Shelf := Place → Option Bytes

inductive Call where
  | exists (p : Place)
  | read (p : Place)
  | makeParent
  | truncate (p : Place)
  | write (p : Place) (data : Bytes)
  | replace (source target : Place)
  deriving DecidableEq

abbrev Call.Answer : Call → Type
  | .exists _ => Bool
  | .read _ => Bytes
  | .makeParent => Unit
  | .truncate _ => Unit
  | .write _ _ => Unit
  | .replace _ _ => Unit

abbrev interface : Interface where
  Call := Call
  Answer := Call.Answer
  Failure := Errno

/-- What a call that works does. -/
def working : (c : Call) → Shelf → Except Errno c.Answer × Shelf
  | .exists p, f => (.ok (f p).isSome, f)
  | .read p, f =>
      match f p with
      | none => (.error .noEntry, f)
      | some data => (.ok data, f)
  | .makeParent, f => (.ok (), f)
  | .truncate p, f => (.ok (), Function.update f p (some []))
  | .write p data, f => (.ok (), Function.update f p (some ((f p).getD [] ++ data)))
  | .replace source target, f =>
      match f source with
      | none => (.error .noEntry, f)
      | some data => (.ok (), Function.update (Function.update f source none) target (some data))

/-- What a call that fails may leave: a write has written a part of its data. -/
def leaves : Call → Shelf → Shelf → Prop
  | .write p data, f, f' =>
      ∃ done, done <+: data ∧ f' = Function.update f p (some ((f p).getD [] ++ done))
  | _, f, f' => f' = f

/-- A file system on which the faulty calls may fail. -/
def machine (faulty : Call → Prop) : Machine interface Shelf where
  answers c f r f' := (r, f') = working c f ∨ faulty c ∧ (∃ e, r = .error e) ∧ leaves c f f'
  fails _ _ := False

/-! ## The store -/

abbrev Prog (α : Type) := Program interface Exc α

def ask (c : Call) : Prog c.Answer :=
  .call c fun
    | .ok a => .done a
    | .error e => .raise (.os e)

def lift (x : Except Exc α) : Prog α :=
  match x with
  | .ok a => .done a
  | .error e => .raise e

/-- `write_text` and `write_bytes`. -/
def writeText (p : Place) (text : PyStr) : Prog Unit := do
  ask (.truncate p)
  let data ← lift (encodeText text)
  ask (.write p data)

def writeBytes (p : Place) (data : Bytes) : Prog Unit := do
  ask (.truncate p)
  ask (.write p data)

section Store

variable [PyFloat F]

/-- `load_bundle`. -/
def loadBundle (str : Exc → PyStr) (p : Place) : Prog (Mapping F) := do
  let data ← (ask (.read p)).orElse fun e => .raise (unreadable str e)
  lift (parseBundle str none data)

def current (str : Exc → PyStr) : Prog (Option (Mapping F)) := do
  let present : Bool ← ask (.exists .installed)
  if present then
    let bundle ← loadBundle str .installed
    return some bundle
  else
    return none

/-- `str(bundle["bundle_version"])`, of a bundle that has been accepted. -/
def versionOf (bundle : Mapping F) : PyStr :=
  match lookup (py "bundle_version") bundle with
  | some (.str s) => s
  | _ => []

/-- `if existing and ...: raise RuleBundleError("bundle downgrade rejected")` -/
def checkDowngrade (bundle : Mapping F) (existing : Option (Mapping F)) (allowRollback : Bool) :
    Except Exc Unit :=
  match existing with
  | none | some [] => .ok ()
  | some old => do
      let newKey ← versionKey (versionOf bundle)
      let oldKey ← versionKey (versionOf old)
      require (!(decide (newKey < oldKey) && !allowRollback)) (py "bundle downgrade rejected")

/-- `if existing: ... .write_bytes(self.path.read_bytes())` -/
def keepBackup (existing : Option (Mapping F)) : Prog Unit :=
  match existing with
  | none | some [] => .done ()
  | some _ => do
      let data ← ask (.read .installed)
      writeBytes .backup data

def install (str : Exc → PyStr) (bundle : Mapping F) (allowRollback : Bool) : Prog (Mapping F) := do
  lift (validateBundle none bundle)
  let existing ← current str
  lift (checkDowngrade bundle existing allowRollback)
  ask .makeParent
  let text ← lift (prettyText bundle)
  writeText .temporary text
  keepBackup existing
  ask (.replace .temporary .installed)
  return bundle

def rollback (str : Exc → PyStr) : Prog (Mapping F) := do
  let present : Bool ← ask (.exists .backup)
  if present then
    let previous ← loadBundle str .backup
    ask (.replace .backup .installed)
    return previous
  else
    .raise (.bundle (py "no verified bundle backup available"))

end Store

/-- A run in which every call works. -/
def run (p : Prog α) (f : Shelf) : Except Exc α × Shelf := execute (fun _ => working) p 0 f

/-! ## Rules -/

section Rules

variable {faulty : Call → Prop} {f : Shelf}

/-- The weakest precondition on a file system with faulty calls. -/
def after (faulty : Call → Prop) (p : Prog α) (Q : Except Exc α → Shelf → Prop) (f : Shelf) : Prop :=
  ∀ b, wp (machine faulty) (fun _ => True) p b (fun _ => Q) f

theorem after_bind {β : Type} {p : Prog α} {g : α → Prog β} {Q : Except Exc β → Shelf → Prop}
    (h : after faulty p (fun r f' => match r with
      | .ok a => after faulty (g a) Q f'
      | .error e => Q (.error e) f') f) : after faulty (p >>= g) Q f := by
  intro b
  refine wp_bind (wp_mono ?_ (h b))
  intro b' r f' hr
  cases r with
  | ok a => exact hr b'
  | error e => exact hr

theorem after_orElse {p : Prog α} {handler : Exc → Prog α} {Q : Except Exc α → Shelf → Prop}
    (h : after faulty p (fun r f' => match r with
      | .ok a => Q (.ok a) f'
      | .error e => after faulty (handler e) Q f') f) : after faulty (p.orElse handler) Q f := by
  intro b
  refine wp_orElse (wp_mono ?_ (h b))
  intro b' r f' hr
  cases r with
  | ok a => exact hr
  | error e => exact hr b'

theorem after_done {a : α} {Q : Except Exc α → Shelf → Prop} (h : Q (.ok a) f) :
    after faulty (.done a) Q f :=
  fun _ => ⟨trivial, h⟩

theorem after_raise {e : Exc} {Q : Except Exc α → Shelf → Prop} (h : Q (.error e) f) :
    after faulty (.raise e) Q f :=
  fun _ => ⟨trivial, h⟩

theorem after_lift {x : Except Exc α} {Q : Except Exc α → Shelf → Prop} (h : Q x f) :
    after faulty (lift x) Q f := by
  cases x with
  | ok a => exact after_done h
  | error e => exact after_raise h

/-- A call works, or is faulty and leaves what it may. -/
theorem after_ask {c : Call} {Q : Except Exc c.Answer → Shelf → Prop}
    (hworks : Q ((working c f).1.mapError .os) (working c f).2)
    (hfails : faulty c → ∀ e f', leaves c f f' → Q (.error (.os e)) f') :
    after faulty (ask c) Q f := by
  have hend : ∀ r f' b, Q (Except.mapError Exc.os r) f' →
      wp (machine faulty) (fun _ => True) (match r with
        | .ok a => .done a
        | .error e => .raise (.os e)) b (fun _ => Q) f' := by
    intro r f' b hQ
    cases r with
    | ok a => exact ⟨trivial, hQ⟩
    | error e => exact ⟨trivial, hQ⟩
  intro b
  refine ⟨trivial, ?_, fun _ _ hf => absurd hf id⟩
  rintro r f' (h | ⟨hc, ⟨e, rfl⟩, hleaves⟩)
  · rw [← h] at hworks
    exact hend r f' b hworks
  · exact ⟨trivial, hfails hc e f' hleaves⟩

theorem after_ends {p : Prog α} {Q : Except Exc α → Shelf → Prop} {r : Except Exc α} {f' : Shelf}
    (h : after faulty p Q f) (hrun : Ends (machine faulty) .never p f r f') : Q r f' := by
  obtain ⟨b, hsteps⟩ := hrun
  have hend := wp_steps (h .never) hsteps
  cases r with
  | ok a => exact hend.2
  | error e => exact hend.2

/-! ### Runs from calls -/

/-- A run in which every call works is a run. -/
theorem run_ends (p : Prog α) (f : Shelf) : Ends (machine faulty) .never p f (run p f).1 (run p f).2 := by
  have hsteps : ∀ n f, Ends (machine faulty) .never p f (execute (fun _ => working) p n f).1
      (execute (fun _ => working) p n f).2 := by
    induction p with
    | done a => exact fun n f => ⟨.never, .refl⟩
    | raise e => exact fun n f => ⟨.never, .refl⟩
    | call c next ih =>
        intro n f
        obtain ⟨b, hrest⟩ := ih (working c f).1 (n + 1) (working c f).2
        exact ⟨b, .step (.answer (.inl rfl)) hrest⟩
    | undo p ih =>
        intro n f
        obtain ⟨b, hrest⟩ := ih n f
        exact ⟨b, .step .undo hrest⟩
  exact hsteps 0 f

/-- A program that works and returns, then the rest. -/
theorem ends_bind {β : Type} {p : Prog α} {g : α → Prog β} {a : α} {f' f'' : Shelf}
    {r : Except Exc β} (hp : run p f = (.ok a, f'))
    (hg : Ends (machine faulty) .never (g a) f' r f'') :
    Ends (machine faulty) .never (p >>= g) f r f'' := by
  obtain ⟨b, hsteps⟩ := @run_ends _ faulty p f
  rw [hp] at hsteps
  obtain rfl := hsteps.never rfl
  obtain ⟨b', hg⟩ := hg
  exact ⟨b', (hsteps.bind g).trans hg⟩

theorem ends_ask_fails {c : Call} {f' : Shelf} (hc : faulty c) (e : Errno) (h : leaves c f f') :
    Ends (machine faulty) .never (ask c) f (.error (.os e)) f' :=
  ⟨.never, .step (.answer (.inr ⟨hc, ⟨e, rfl⟩, h⟩)) .refl⟩

theorem ends_bind_raise {β : Type} {M : Machine interface Shelf} {p : Prog α} {g : α → Prog β}
    {e : Exc} {f' : Shelf} (hp : Ends M .never p f (.error e) f') :
    Ends M .never (p >>= g) f (.error e) f' := by
  obtain ⟨b, hp⟩ := hp
  exact ⟨b, hp.bind g⟩

end Rules

/-! ## What an operation does -/

section Post

variable [PyFloat F] {faulty : Call → Prop} {f : Shelf} {str : Exc → PyStr}

theorem after_loadBundle {p : Place} {Q : Except Exc (Mapping F) → Shelf → Prop}
    (hok : ∀ data, f p = some data → Q (parseBundle str none data) f)
    (hraise : ∀ e, f p = none ∨ faulty (.read p) → Q (.error e) f) :
    after faulty (loadBundle str p) Q f := by
  refine after_bind (after_orElse (after_ask ?_ ?_))
  · cases hp : f p with
    | none =>
        simp only [working, hp, Except.mapError]
        exact after_raise (hraise _ (.inl hp))
    | some data =>
        simp only [working, hp, Except.mapError]
        exact after_lift (hok data hp)
  · rintro hc e f' rfl
    exact after_raise (hraise _ (.inr hc))

theorem after_current {Q : Except Exc (Option (Mapping F)) → Shelf → Prop}
    (hnone : f .installed = none → Q (.ok none) f)
    (hsome : ∀ data old, f .installed = some data → parseBundle str none data = .ok old →
      Q (.ok (some old)) f)
    (hraise : ∀ e, Q (.error e) f) : after faulty (current str) Q f := by
  refine after_bind (after_ask ?_ ?_)
  · cases hi : f .installed with
    | none =>
        simp only [working, hi, Except.mapError, Option.isSome_none]
        exact after_done (hnone hi)
    | some data =>
        simp only [working, hi, Except.mapError, Option.isSome_some, if_true]
        refine after_bind (after_loadBundle ?_ ?_)
        · intro data' hdata'
          obtain rfl : data' = data := Option.some.inj (hdata'.symm.trans hi)
          cases hparse : (parseBundle str none data' : Except Exc (Mapping F)) with
          | error e => exact hraise e
          | ok old => exact after_done (hsome data' old hi hparse)
        · intro e _
          exact hraise e
  · rintro - e f' rfl
    exact hraise _

/-- A file that parses is not empty, nor is its bundle. -/
theorem validate_of_parse {data : Bytes} {bundle : Mapping F}
    (h : parseBundle str none data = .ok bundle) :
    validateBundle none bundle = .ok () ∧ (Json.obj bundle).WF := by
  unfold parseBundle at h
  split at h
  · exact absurd h (by simp)
  · next text _ =>
    split at h
    · exact absurd h (by simp)
    · exact absurd h (by simp)
    · next bundle' hloads =>
      obtain ⟨u, hvalid, hpure⟩ := except_bind_ok_iff.1 h
      obtain rfl : bundle' = bundle := Except.ok.inj hpure
      exact ⟨hvalid, loads_wf hloads⟩
    · exact absurd h (by simp)

theorem leaves_write {p : Place} {data : Bytes} {f' : Shelf}
    (h : leaves (.write p data) (Function.update f p (some [])) f') :
    ∃ done, done <+: data ∧ f' = Function.update f p (some done) := by
  obtain ⟨done, hdone, rfl⟩ := h
  exact ⟨done, hdone, by simp⟩

theorem after_writeBytes {p : Place} {data : Bytes} {Q : Except Exc Unit → Shelf → Prop}
    (hok : Q (.ok ()) (Function.update f p (some data))) (hopen : ∀ e, faulty (.truncate p) → Q (.error e) f)
    (hwrite : ∀ e done, faulty (.write p data) → done <+: data →
      Q (.error e) (Function.update f p (some done))) :
    after faulty (writeBytes p data) Q f := by
  refine after_bind (after_ask ?_ ?_)
  · refine after_ask ?_ ?_
    · simpa [working, Except.mapError] using hok
    · intro hc e f' hleaves
      obtain ⟨done, hdone, rfl⟩ := leaves_write hleaves
      exact hwrite _ done hc hdone
  · rintro hc e f' rfl
    exact hopen _ hc

theorem after_writeText {p : Place} {text : PyStr} {Q : Except Exc Unit → Shelf → Prop}
    (hok : ∀ data, encodeText text = .ok data → Q (.ok ()) (Function.update f p (some data)))
    (hraise : ∀ e f', (∀ q, q ≠ p → f' q = f q) → Q (.error e) f') :
    after faulty (writeText p text) Q f := by
  refine after_bind (after_ask ?_ ?_)
  · refine after_bind (after_lift ?_)
    cases hdata : encodeText text with
    | error e => exact hraise e _ fun q hq => Function.update_of_ne hq ..
    | ok data =>
        refine after_ask ?_ ?_
        · simpa [working, Except.mapError] using hok data hdata
        · intro hc e f' hleaves
          obtain ⟨done, -, rfl⟩ := leaves_write hleaves
          exact hraise _ _ fun q hq => Function.update_of_ne hq ..
  · rintro - e f' rfl
    exact hraise _ _ fun _ _ => rfl

theorem ne_nil_of_validate {bundle : Mapping F} (h : validateBundle none bundle = .ok ()) :
    bundle ≠ [] := by
  rintro rfl
  exact absurd (require_bind_ok_iff.1 h).1 (by simp [lookup, isText])

/-- The bundle that is installed may be replaced by the new one. -/
structure Replaceable (str : Exc → PyStr) (bundle : Mapping F) (allowRollback : Bool)
    (data : Bytes) : Prop where
  intro ::
  parsed : ∃ old, parseBundle str none data = .ok old ∧
    checkDowngrade bundle (some old) allowRollback = .ok ()

/-- An install that has gone through. The bundle that was installed is the backup. -/
structure Installed (str : Exc → PyStr) (bundle : Mapping F) (allowRollback : Bool) (f : Shelf)
    (f' : Shelf) : Prop where
  valid : validateBundle none bundle = .ok ()
  encoded : ∃ data, (prettyText bundle >>= encodeText) = .ok data ∧ f' .installed = some data
  backup : f' .backup = (f .installed).or (f .backup)
  replaced : ∀ data, f .installed = some data → Replaceable str bundle allowRollback data

/-- What an install that has failed leaves in the backup, when it got as far as that. -/
inductive Spoilt (faulty : Call → Prop) (data : Bytes) : Option Bytes → Prop
  | cut {done} (hc : faulty (.write .backup data)) (h : done <+: data) : Spoilt faulty data (some done)
  | overwritten (hc : faulty (.replace .temporary .installed)) : Spoilt faulty data (some data)

/-- An install that has failed. -/
structure Failed (str : Exc → PyStr) (faulty : Call → Prop) (bundle : Mapping F)
    (allowRollback : Bool) (f f' : Shelf) : Prop where
  installed : f' .installed = f .installed
  backup : f' .backup = f .backup ∨ ∃ data, f .installed = some data ∧
    Replaceable str bundle allowRollback data ∧ Spoilt faulty data (f' .backup)

theorem Failed.refl (bundle : Mapping F) (allowRollback : Bool) :
    Failed str faulty bundle allowRollback f f :=
  ⟨rfl, .inl rfl⟩

/-- **What an install does.** -/
theorem after_install {bundle : Mapping F} {allowRollback : Bool} :
    after faulty (install str bundle allowRollback) (fun r f' => match r with
      | .ok b => b = bundle ∧ Installed str bundle allowRollback f f'
      | .error _ => Failed str faulty bundle allowRollback f f') f := by
  refine after_bind (after_lift ?_)
  cases hvalid : validateBundle none bundle with
  | error e => exact .refl ..
  | ok u =>
  refine after_bind (after_current ?_ ?_ (fun e => .refl ..))
  · intro hnone
    refine after_bind (after_lift ?_)
    refine after_bind (after_ask ?_ ?_)
    swap
    · rintro - e f' rfl
      exact .refl ..
    refine after_bind (after_lift ?_)
    cases htext : prettyText bundle with
    | error e => exact .refl ..
    | ok text =>
    refine after_bind (after_writeText ?_ ?_)
    · intro data hencode
      refine after_bind (after_done ?_)
      refine after_bind (after_ask ?_ ?_)
      · simp only [working, Function.update_self, Except.mapError]
        refine after_done ⟨rfl, hvalid, ⟨data, ?_, Function.update_self ..⟩, ?_, ?_⟩
        · rw [htext]
          exact hencode
        · simp [hnone]
        · intro data hdata
          exact absurd (hnone.symm.trans hdata) (by simp)
      · rintro - e f' rfl
        exact ⟨by simp [working], .inl (by simp [working])⟩
    · intro e f' hsame
      exact ⟨hsame _ (by simp), .inl (hsame _ (by simp))⟩
  · intro data old hdata hparse
    refine after_bind (after_lift ?_)
    cases hdowngrade : checkDowngrade bundle (some old) allowRollback with
    | error e => exact .refl ..
    | ok u =>
    have hreplaceable : Replaceable str bundle allowRollback data := ⟨old, hparse, hdowngrade⟩
    refine after_bind (after_ask ?_ ?_)
    swap
    · rintro - e f' rfl
      exact .refl ..
    refine after_bind (after_lift ?_)
    cases htext : prettyText bundle with
    | error e => exact .refl ..
    | ok text =>
    refine after_bind (after_writeText ?_ ?_)
    · intro new hencode
      cases old with
      | nil => exact absurd rfl (ne_nil_of_validate (validate_of_parse hparse).1)
      | cons kv old =>
      refine after_bind (after_bind (after_ask ?_ ?_))
      swap
      · rintro - e f' rfl
        exact ⟨by simp [working], .inl (by simp [working])⟩
      simp only [working, Function.update_of_ne (show Place.installed ≠ .temporary by decide), hdata,
        Except.mapError]
      refine after_writeBytes ?_ ?_ ?_
      · refine after_bind (after_ask ?_ ?_)
        · simp only [working, Function.update_of_ne (show Place.temporary ≠ .backup by decide),
            Function.update_self, Except.mapError]
          refine after_done ⟨rfl, hvalid, ⟨new, ?_, Function.update_self ..⟩, ?_, ?_⟩
          · rw [htext]
            exact hencode
          · simp [hdata]
          · intro data' hdata'
            obtain rfl : data' = data := Option.some.inj (hdata'.symm.trans hdata)
            exact hreplaceable
        · rintro hc e f' rfl
          exact ⟨by simp, .inr ⟨data, hdata, hreplaceable, by simpa using .overwritten hc⟩⟩
      · intro e _
        exact ⟨by simp, .inl (by simp)⟩
      · intro e done hc hdone
        exact ⟨by simp, .inr ⟨data, hdata, hreplaceable, by simpa using .cut hc hdone⟩⟩
    · intro e f' hsame
      exact ⟨hsame _ (by simp), .inl (hsame _ (by simp))⟩

end Post

end Elyra.Signatures
