import Elyra.Posix.Ownership
import Elyra.Response.Steps

set_option autoImplicit false
set_option linter.unusedSectionVars false

/-! # The engine's descriptors

Any number of threads call the engine at the same time. A step is one call of the operating system or
one region under the lock, and other components open and close descriptors of their own in between: a
number that is closed may be theirs the next moment.

The engine's descriptors are in `World.descriptors`, each with the place of its opening among all; a
number the engine uses or closes while it is not there is a stray. A thread holds a descriptor from
the call that opened it, or took its binding out of the map, until it closes it or puts it there. -/

namespace Elyra.Response.Steps

open Elyra.Python Elyra.Posix Elyra.Posix.Program Elyra.Correlation

variable {F : Type} {α : Type}

/-! ## The world -/

structure World where
  tables : Tables := {}
  /-- The engine's open descriptors, and the place of each among its openings. -/
  descriptors : Dict Nat Nat := Dict.empty
  /-- How many the engine has opened. -/
  opened : Nat := 0
  /-- The openings that it has closed again. -/
  closed : List Nat := []
  /-- The descriptors of other components. -/
  others : List Nat := []
  /-- Numbers the engine used or closed when they were none of its own. -/
  strays : List Nat := []

namespace World

/-- The number is not in use. -/
def Free (w : World) (fd : Nat) : Prop := w.descriptors.get? fd = none ∧ fd ∉ w.others

def setBindings (w : World) (bindings : Dict PyStr BoundTarget) : World :=
  { w with tables := { w.tables with bindings := bindings } }

/-- The engine opens a file, or a pidfd, as that number. -/
def opening (w : World) (fd : Nat) : World :=
  { w with descriptors := w.descriptors.set fd w.opened, opened := w.opened + 1 }

/-- The engine uses the number. -/
def touching (w : World) (fd : Nat) : World :=
  match w.descriptors.get? fd with
  | some _ => w
  | none => { w with strays := w.strays ++ [fd] }

/-- The engine closes the number, whoever has opened it. -/
def closing (w : World) (fd : Nat) : World :=
  match w.descriptors.get? fd with
  | some k => { w with descriptors := w.descriptors.pop fd, closed := w.closed ++ [k] }
  | none => { w with others := w.others.erase fd, strays := w.strays ++ [fd] }

def closingAll (w : World) (fds : List Nat) : World := fds.foldl closing w

end World

/-! ## What the calls do -/

section Calls

variable [FloatNum F]

/-- The results of a call, and the world after it. -/
def answers (w : World) (c : (interface F).Call) (r : Except Exc c.Answer) (w' : World) : Prop :=
  match c, r with
  | .openFile _, .ok fd => w.Free fd ∧ w' = w.opening fd
  | .pidfdOpen _, .ok fd => w.Free fd ∧ w' = w.opening fd
  | .fstat fd, _ => w' = w.touching fd
  | .readAll fd, _ => w' = w.touching fd
  | .lseek fd, _ => w' = w.touching fd
  | .sendSignal fd _, _ => w' = w.touching fd
  | .waitPidfd fd _, _ => w' = w.touching fd
  | .close fd, _ => w' = w.closing fd
  | .monotonic, r => (∃ n, r = .ok n) ∧ w' = w
  | .enter state, r => r = .ok (enter state w.tables.ranks) ∧ w' = w
  | .commit state a previous status, r =>
      r = .ok () ∧
        w' = { w with tables := { w.tables with
          ranks := commit state a previous status w.tables.ranks } }
  | .bind binding, r =>
      ∃ closing region,
        (Region.swapBinding closing binding { bindings := w.tables.bindings } = .ok () region ∧
            r = .ok () ∨
          ∃ e, Region.swapBinding closing binding { bindings := w.tables.bindings } =
            .error e region ∧ r = .error e) ∧
        w' = (w.closingAll region.closed).setBindings region.bindings
  | .getBinding id, r => r = .ok (w.tables.bindings.get? id) ∧ w' = w
  | .popBinding id, r =>
      r = .ok (w.tables.bindings.get? id) ∧ w' = w.setBindings (w.tables.bindings.pop id)
  | .bindingKeys, r => r = .ok (keys w.tables.bindings.items) ∧ w' = w
  | _, _ => w' = w

end Calls

/-- Other components open and close descriptors. -/
inductive Outside : World → World → Prop
  | opens {w fd} : w.Free fd → Outside w { w with others := fd :: w.others }
  | closes {w fd} : fd ∈ w.others → Outside w { w with others := w.others.erase fd }

/-! ## Who has a descriptor -/

def single : Option Nat → Multiset Nat
  | none => 0
  | some fd => {fd}

/-- What the calls use, take and give. `bind_state` hands its descriptor over to the map. -/
def handling (F : Type) : Handling (interface F) Nat where
  uses
    | .fstat fd => {fd}
    | .readAll fd => {fd}
    | .lseek fd => {fd}
    | .sendSignal fd _ => {fd}
    | .waitPidfd fd _ => {fd}
    | .close fd => {fd}
    | _ => 0
  takes
    | .close fd, _ => {fd}
    | .bind binding, .ok _ => single binding.fileFd
    | _, _ => 0
  gives
    | .openFile _, .ok fd => {fd}
    | .pidfdOpen _, .ok fd => {fd}
    | .popBinding _, .ok binding => single (binding.bind BoundTarget.fileFd)
    | _, _ => 0

/-- The monotonic clock works, and no `os.close` fails in the lock region of `bind_state`. -/
def Orderly (c : (interface F).Call) (r : Except Exc c.Answer) : Prop :=
  (c = Call.monotonic ∨ ∃ binding, c = Call.bind binding) → ∃ a, r = .ok a

/-! ## Careful calls -/

/-- The call uses nothing but what is held, and takes and gives nothing. -/
structure Inert (held : Multiset Nat) (c : (interface F).Call) : Prop where
  uses : (handling F).uses c ≤ held
  takes : ∀ r, (handling F).takes c r = 0
  gives : ∀ r, (handling F).gives c r = 0

/-- The program is careful from these descriptors on. -/
abbrev Careful (p : Prog F α) (held : Multiset Nat) (Q : Except Exc α → Multiset Nat → Prop) : Prop :=
  careful (handling F) Orderly p held Q

theorem Careful.ofInert {p : Prog F α} {held : Multiset Nat} (h : Only (Inert held) p) :
    Careful p held fun _ held' => held' = held :=
  careful_of_only (fun _ hc => hc.uses) (fun _ r hc => hc.takes r) (fun _ r hc => hc.gives r) h

/-- The call has nothing to do with descriptors. -/
def Apart : Call F → Prop
  | .openFile _ => False
  | .pidfdOpen _ => False
  | .fstat _ => False
  | .readAll _ => False
  | .lseek _ => False
  | .sendSignal _ _ => False
  | .waitPidfd _ _ => False
  | .close _ => False
  | .bind _ => False
  | .popBinding _ => False
  | _ => True

theorem Inert.ofApart {c : Call F} (held : Multiset Nat) (h : Apart c) : Inert held c := by
  cases c with
  | openFile path => exact h.elim
  | pidfdOpen pid => exact h.elim
  | fstat fd => exact h.elim
  | readAll fd => exact h.elim
  | lseek fd => exact h.elim
  | sendSignal fd s => exact h.elim
  | waitPidfd fd s => exact h.elim
  | close fd => exact h.elim
  | bind binding => exact h.elim
  | popBinding id => exact h.elim
  | _ => exact ⟨Multiset.zero_le _, fun _ => rfl, fun _ => rfl⟩

section Only

variable {P : (interface F).Call → Prop}

theorem only_ask {c : Call F} (h : P c) : Only P (ask c) := by
  refine ⟨h, fun r => ?_⟩
  cases r with
  | ok a => trivial
  | error e => trivial

theorem only_lift (x : Except Exc α) : Only P (lift x : Prog F α) := by
  cases x with
  | ok a => trivial
  | error e => trivial

theorem only_catching {classes : List ExcClass} {p : Prog F α} {handler : Exc → Prog F α}
    (hp : Only P p) (hh : ∀ e, Only P (handler e)) : Only P (catching classes p handler) := by
  refine Only.orElse hp fun e => ?_
  split
  · exact hh e
  · trivial

end Only

theorem only_apart {c : Call F} (held : Multiset Nat) (h : Apart c) :
    Only (Inert held) (ask c) :=
  only_ask (Inert.ofApart held h)

theorem capture_only (held : Multiset Nat) (pid : Int) :
    Only (Inert held) (capture pid : Prog F ProcessIdentity) := by
  unfold capture
  split
  · trivial
  · refine Only.bind (only_lift _) fun text => only_catching ?_ fun e => ?_
    · refine Only.bind (only_apart held trivial) fun text => ?_
      refine Only.bind (only_lift _) fun ticks => ?_
      refine Only.bind (only_apart held trivial) fun path => ?_
      refine Only.bind (only_apart held trivial) fun exe => ?_
      exact Only.bind (only_apart held trivial) fun uid => trivial
    · split <;> trivial

/-- A use of the descriptor that is held. -/
theorem only_use {c : Call F} {fd : Nat} (huses : (handling F).uses c = {fd})
    (htakes : ∀ r, (handling F).takes c r = 0) (hgives : ∀ r, (handling F).gives c r = 0) :
    Only (Inert {fd}) (ask c) :=
  only_ask ⟨huses ▸ le_refl _, htakes, hgives⟩

theorem readIdentity_only (path : PyStr) (metadata : Stat) (fd : Nat) :
    Only (Inert {fd}) (readIdentity path metadata fd : Prog F FileIdentity) := by
  refine Only.bind (only_use rfl (fun _ => rfl) fun _ => rfl) fun opened => ?_
  split
  · trivial
  · refine Only.bind (only_use rfl (fun _ => rfl) fun _ => rfl) fun data => ?_
    refine Only.bind (only_use rfl (fun _ => rfl) fun _ => rfl) fun _ => ?_
    refine Only.bind (only_use rfl (fun _ => rfl) fun _ => rfl) fun after => ?_
    split
    · exact Only.bind (only_apart {fd} trivial) fun resolved => trivial
    · trivial

theorem signalProcess_only (policy : ResponsePolicy) (expected : ProcessIdentity) (pidfd : Nat) :
    Only (Inert {pidfd}) (signalProcess policy expected pidfd : Prog F (Mapping F)) := by
  have hescalate : Only (Inert {pidfd}) (escalate policy pidfd : Prog F (Mapping F)) := by
    unfold escalate
    split
    · trivial
    · refine Only.bind (only_use rfl (fun _ => rfl) fun _ => rfl) fun _ => ?_
      refine Only.bind (only_use rfl (fun _ => rfl) fun _ => rfl) fun exited => ?_
      split <;> trivial
  refine Only.bind (capture_only _ _) fun current => ?_
  split
  · refine Only.bind (only_use rfl (fun _ => rfl) fun _ => rfl) fun _ => ?_
    refine Only.bind (only_use rfl (fun _ => rfl) fun _ => rfl) fun exited => ?_
    split
    · trivial
    · exact hescalate
  · trivial

/-! ## Careful programs -/

/-- The program starts and ends with nothing. -/
abbrev Neat (p : Prog F α) : Prop := Careful p 0 fun _ held => held = 0

theorem Neat.ofOnly {p : Prog F α} (h : Only (Inert 0) p) : Neat p := Careful.ofInert h

theorem Neat.bind {β : Type} {p : Prog F α} {g : α → Prog F β} (hp : Neat p)
    (hg : ∀ a, Neat (g a)) : Neat (p >>= g) := by
  refine careful_bind (careful_mono (fun r held hheld => ?_) hp)
  subst hheld
  cases r with
  | ok a => exact hg a
  | error e => rfl

theorem Neat.catching {classes : List ExcClass} {p : Prog F α} {handler : Exc → Prog F α}
    (hp : Neat p) (hh : ∀ e, Neat (handler e)) : Neat (catching classes p handler) := by
  refine careful_orElse (careful_mono (fun r held hheld => ?_) hp)
  subst hheld
  cases r with
  | ok a => rfl
  | error e =>
      show Careful (if e.isIn classes = true then handler e else .raise e) 0 _
      split
      · exact hh e
      · rfl

/-- `os.close` of the only descriptor held. -/
theorem close_careful (fd : Nat) :
    Careful (Steps.ask (.close fd) : Prog F Unit) {fd} fun _ held => held = 0 := by
  refine ⟨le_refl _, fun r _ => ⟨le_refl _, ?_⟩⟩
  have hafter : (handling F).after (Call.close fd) r {fd} = 0 := by
    show ({fd} : Multiset Nat) - {fd} + 0 = 0
    simp
  rw [hafter]
  cases r with
  | ok a => rfl
  | error e => rfl

/-- `except Exception: os.close(fd); raise`, around a body that keeps the descriptor. -/
theorem orClose_careful {p : Prog F α} {fd : Nat} (h : Only (Inert {fd}) p) :
    Careful (p.orElse fun e => do
      Steps.ask (.close fd)
      .raise e) {fd}
      fun r held => match r with
        | .ok _ => held = {fd}
        | .error _ => held = 0 := by
  refine careful_orElse (careful_mono (fun r held hheld => ?_) (Careful.ofInert h))
  subst hheld
  cases r with
  | ok a => rfl
  | error e =>
      refine careful_bind (careful_mono (fun r held hheld => ?_) (close_careful fd))
      cases r with
      | ok a => exact hheld
      | error e => exact hheld

/-- `finally: os.close(fd)`. -/
theorem andFinally_careful {p : Prog F α} {fd : Nat} (h : Only (Inert {fd}) p) :
    Careful (andFinally p (Steps.ask (.close fd))) {fd} fun _ held => held = 0 := by
  refine careful_bind (careful_mono (fun r held hheld => ?_) (orClose_careful h))
  cases r with
  | ok a =>
      subst hheld
      refine careful_bind (careful_mono (fun r held hheld => ?_) (close_careful fd))
      cases r with
      | ok a => exact hheld
      | error e => exact hheld
  | error e => exact hheld

/-- The descriptor of an opened file is held when `_open_file_identity` returns. -/
theorem openFileIdentity_careful (path : PyStr) :
    Careful (openFileIdentity path : Prog F (FileIdentity × Nat)) 0
      fun r held => match r with
        | .ok file => held = {file.2}
        | .error _ => held = 0 := by
  have hlstat : Neat (catching [.osError] (Steps.ask (.lstat path : Call F)) fun e =>
      refuse (py "cannot inspect response target file: " ++ path ++ py ": " ++ e.text)) :=
    Neat.ofOnly (only_catching (only_apart 0 trivial) fun _ => trivial)
  refine careful_bind (careful_mono (fun r held hheld => ?_) hlstat)
  subst hheld
  cases r with
  | error e => rfl
  | ok metadata =>
      show Careful (if _ then _ else _) 0 _
      split
      · rfl
      · refine careful_bind (careful_orElse ?_)
        refine ⟨Multiset.zero_le _, fun r _ => ⟨Multiset.zero_le _, ?_⟩⟩
        cases r with
        | error e =>
            show Careful (if _ then _ else _) 0 _
            split
            · rfl
            · rfl
        | ok fd =>
            refine careful_bind (careful_mono (fun r held hheld => ?_)
              (orClose_careful (readIdentity_only path metadata fd)))
            cases r with
            | ok identity => exact hheld
            | error e => exact hheld

section Engine

variable [FloatNum F]

theorem unlessRefused_careful {p : Prog F α} {held : Multiset Nat}
    {Q : Except Exc α → Multiset Nat → Prop} (h : Careful p held Q)
    (herror : ∀ e held', Q (.error e) held' → held' = 0) :
    Careful (unlessRefused p) held fun r held' => match r with
      | .ok none => held' = 0
      | .ok (some a) => Q (.ok a) held'
      | .error _ => held' = 0 := by
  refine careful_orElse (careful_bind (careful_mono (fun r held' hheld => ?_) h))
  cases r with
  | ok a => exact hheld
  | error e =>
      show Careful (if _ then _ else _) held' _
      split
      · exact herror e held' hheld
      · exact herror e held' hheld

theorem captureBound_neat (pid : Option Int) :
    Neat (captureBound pid : Prog F (Option ProcessIdentity)) := by
  cases pid with
  | none => rfl
  | some pid =>
      refine careful_mono (fun r held hheld => ?_)
        (unlessRefused_careful (Careful.ofInert (capture_only 0 pid)) fun _ _ h => h)
      rcases r with e | _ | a
      · exact hheld
      · exact hheld
      · exact hheld

/-- The descriptor of the file that `bind_state` has opened, if it has. -/
theorem openBound_careful (path : Option PyStr) :
    Careful (openBound path : Prog F (Option (FileIdentity × Nat))) 0
      fun r held => match r with
        | .ok file => held = single (file.map Prod.snd)
        | .error _ => held = 0 := by
  cases path with
  | none => rfl
  | some path =>
      refine careful_mono (fun r held hheld => ?_)
        (unlessRefused_careful (openFileIdentity_careful path) fun _ _ h => h)
      rcases r with e | _ | file
      · exact hheld
      · exact hheld
      · exact hheld

theorem readField_neat (state : Mapping F) (key : String) : Neat (readField state key) := by
  unfold readField
  cases getTruthy state key with
  | none => rfl
  | some value => exact Neat.ofOnly (only_apart 0 trivial)

theorem bindState_neat (state : Mapping F) : Neat (bindState state) := by
  refine Neat.bind (readField_neat state _) fun _ => ?_
  split
  · rfl
  · refine Neat.bind (Neat.ofOnly (only_lift _)) fun pid => ?_
    refine Neat.bind (captureBound_neat pid) fun process => ?_
    refine careful_bind (careful_mono (fun r held hheld => ?_) (openBound_careful (path state)))
    cases r with
    | error e => exact hheld
    | ok file =>
        subst hheld
        show Careful (if _ then _ else _) _ _
        split
        · next hnone =>
          rw [hnone.2]
          rfl
        · refine careful_bind ⟨Multiset.zero_le _, fun r hr => ⟨Multiset.zero_le _, ?_⟩⟩
          obtain ⟨now, rfl⟩ := hr (.inl rfl)
          refine careful_bind ⟨Multiset.zero_le _, fun r hr => ?_⟩
          obtain ⟨u, rfl⟩ := hr (.inr ⟨_, rfl⟩)
          have hheld : (handling F).after Call.monotonic (.ok now) (single (file.map Prod.snd)) =
              single (file.map Prod.snd) := by
            show single (file.map Prod.snd) - 0 + 0 = _
            rw [Multiset.sub_zero, add_zero]
          rw [hheld]
          refine ⟨le_refl _, ?_⟩
          show single (file.map Prod.snd) - single (file.map Prod.snd) + 0 = 0
          rw [add_zero, tsub_self]

theorem releaseBinding_neat (id : PyStr) : Neat (releaseBinding id : Prog F Unit) := by
  refine careful_bind ⟨Multiset.zero_le _, fun r _ => ⟨Multiset.zero_le _, ?_⟩⟩
  cases r with
  | error e => rfl
  | ok binding =>
      have hheld : (handling F).after (Call.popBinding id) (.ok binding) 0 =
          single (binding.bind BoundTarget.fileFd) := by
        show 0 - 0 + single (binding.bind BoundTarget.fileFd) = _
        rw [Multiset.sub_zero, zero_add]
      rw [hheld]
      show Careful (closeFd (binding.bind BoundTarget.fileFd)) _ _
      cases binding.bind BoundTarget.fileFd with
      | none => rfl
      | some fd => exact close_careful fd

theorem releaseAll_neat (keys : List PyStr) : Neat (releaseAll keys : Prog F Unit) := by
  induction keys with
  | nil => rfl
  | cons key keys ih => exact Neat.bind (releaseBinding_neat key) fun _ => ih

theorem close_neat : Neat (close : Prog F Unit) :=
  Neat.bind (Neat.ofOnly (only_apart 0 trivial)) fun keys => releaseAll_neat keys

theorem terminate_neat (h : Platform) (policy : ResponsePolicy) (expected : ProcessIdentity) :
    Neat (terminate h policy expected : Prog F (Mapping F)) := by
  refine Neat.bind (Neat.ofOnly (only_lift _)) fun _ => ?_
  refine ⟨Multiset.zero_le _, fun r _ => ⟨Multiset.zero_le _, ?_⟩⟩
  cases r with
  | ok pidfd => exact andFinally_careful (signalProcess_only policy expected pidfd)
  | error e =>
      show Careful (if _ then _ else if _ then _ else _) 0 _
      split
      · rfl
      · split <;> rfl

theorem readTexts_neat (state : Mapping F) : Neat (readTexts state) := by
  refine Neat.bind (readField_neat state _) fun _ => ?_
  cases action state with
  | none => rfl
  | some a => exact readField_neat state _

theorem releaseState_neat (state : Mapping F) : Neat (releaseState state) :=
  Neat.bind (readField_neat state _) fun _ => releaseBinding_neat _

theorem bindingOf_neat (state : Mapping F) : Neat (bindingOf state) := by
  refine Neat.bind (readField_neat state _) fun _ => ?_
  refine Neat.bind (Neat.ofOnly (only_apart 0 trivial)) fun binding => ?_
  cases binding with
  | none => rfl
  | some binding =>
      refine Neat.bind (Neat.ofOnly (only_lift _)) fun pid => ?_
      split <;> rfl

theorem resultOf_neat (state : Mapping F) (report : Report F) : Neat (resultOf state report) :=
  Neat.bind (Neat.ofOnly (only_apart 0 trivial)) fun _ =>
    Neat.bind (readField_neat state _) fun _ =>
      Neat.bind (Neat.ofOnly (only_lift _)) fun _ =>
        Neat.bind (Neat.ofOnly (only_apart 0 trivial)) fun _ =>
          Neat.bind (Neat.ofOnly (only_apart 0 trivial)) fun _ => rfl

theorem executeTerminate_neat (h : Platform) (policy : ResponsePolicy) (state : Mapping F) :
    Neat (executeTerminate h policy state) := by
  refine Neat.catching (Neat.bind (bindingOf_neat state) fun binding => ?_) fun _ =>
    resultOf_neat state _
  cases binding.process with
  | none => rfl
  | some p => exact Neat.bind (terminate_neat h policy p) fun _ => resultOf_neat state _

theorem executeQuarantine_neat (h : Platform) (policy : ResponsePolicy) (state : Mapping F) :
    Neat (executeQuarantine h policy state) := by
  have hrelease : ∀ r : ActionResult F, Neat (do
      releaseState state
      return r : Prog F (ActionResult F)) :=
    fun r => Neat.bind (releaseState_neat state) fun _ => rfl
  refine Neat.catching (Neat.bind (bindingOf_neat state) fun binding => ?_) fun _ =>
    Neat.bind (resultOf_neat state _) hrelease
  cases binding.file with
  | none => rfl
  | some file =>
      dsimp only
      split
      · rfl
      · refine Neat.bind ?_ fun termination => Neat.bind ?_ fun record =>
          Neat.bind (resultOf_neat state _) hrelease
        · cases binding.process with
          | none => rfl
          | some p => exact Neat.bind (terminate_neat h policy p) fun _ => rfl
        · exact Neat.bind (Neat.ofOnly (only_lift _)) fun _ => Neat.ofOnly (only_apart 0 trivial)

theorem executeRecommendation_neat (h : Platform) (policy : ResponsePolicy) (state : Mapping F) :
    Neat (executeRecommendation h policy state) := by
  have hreport : ∀ automatic a, Neat (reportAction automatic state a) := fun _ _ =>
    Neat.bind (Neat.ofOnly (only_lift _)) fun _ => resultOf_neat state _
  refine Neat.bind (readTexts_neat state) fun _ => ?_
  refine Neat.bind (Neat.ofOnly (only_apart 0 trivial)) fun entered => ?_
  cases entered with
  | answered report => exact resultOf_neat state report
  | acting a previous =>
      refine Neat.bind ?_ fun r => Neat.bind (Neat.ofOnly (only_apart 0 trivial)) fun _ => rfl
      cases a with
      | terminate =>
          dsimp only [perform]
          split
          · exact executeTerminate_neat h policy state
          · exact hreport _ _
      | quarantine =>
          dsimp only [perform]
          split
          · exact executeQuarantine_neat h policy state
          · exact hreport _ _
      | deny => exact Neat.bind (Neat.ofOnly (only_apart 0 trivial)) fun _ => hreport _ _
      | _ => exact hreport _ _

end Engine

end Elyra.Response.Steps
