import Elyra.Posix.Storm
import Elyra.Quarantine.Manager

set_option autoImplicit false

/-! # Reading

The parts of the manager that only look: their calls change no file, and there is nothing to undo. -/

namespace Elyra.Quarantine

open Elyra.Python Elyra.Posix Elyra.Posix.Program

variable {F : Type} {α : Type}

/-- The calls that change no file. -/
def Reading : (interface F).Call → Prop
  | .file (.openNew _) => False
  | .file (.write _ _) => False
  | .file (.fchmod _ _) => False
  | .file (.fchown _ _ _) => False
  | .file (.rename _ _) => False
  | .file (.link _ _) => False
  | .file (.unlink _) => False
  | .file (.replace _ _) => False
  | .file (.chmod _ _) => False
  | _ => True

/-! ## The helpers -/

theorem plain_lift (x : Except Exc α) : Plain Reading (lift x : Prog F α) := by
  cases x <;> trivial

theorem plain_check (ok : Prop) [Decidable ok] (e : Exc) :
    Plain Reading (check ok e : Prog F Unit) := by
  unfold check
  split <;> trivial

theorem plain_ask {c : Call F} (h : Reading c) : Plain Reading (ask c) := by
  refine ⟨h, fun r => ?_⟩
  cases r <;> trivial

theorem plain_sys {c : FileCall Path Directory} (h : Reading (F := F) (.file c)) :
    Plain Reading (sys c : Prog F c.Answer) := plain_ask h

theorem plain_lexists (p : Path) : Plain Reading (lexists p : Prog F Bool) := by
  refine ⟨trivial, fun r => ?_⟩
  cases r <;> trivial

theorem plain_fsyncDirectory (d : Directory) : Plain Reading (fsyncDirectory d : Prog F Unit) := by
  refine ⟨trivial, fun r => ?_⟩
  cases r with
  | error e => trivial
  | ok u =>
      refine ⟨trivial, fun r => ?_⟩
      dsimp only
      split <;> trivial

theorem plain_openRegularNofollow (m : Manager) (p : Path) :
    Plain Reading (openRegularNofollow m p : Prog F (Nat × Stat)) := by
  refine ⟨trivial, fun r => ?_⟩
  dsimp only
  split
  · trivial
  · trivial
  · refine .bind (plain_sys trivial) fun opened => ?_
    refine .bind (plain_check _ _) fun _ => ?_
    refine .bind (plain_sys trivial) fun named => ?_
    refine .bind (plain_check _ _) fun _ => ?_
    exact .bind (plain_check _ _) fun _ => trivial

theorem plain_hashFd (fd : Nat) : Plain Reading (hashFd fd : Prog F PyStr) :=
  .bind (plain_sys trivial) fun _ => trivial

theorem plain_assertFdUnchanged (fd : Nat) (initial : Stat) (operation : PyStr) :
    Plain Reading (assertFdUnchanged fd initial operation : Prog F Unit) :=
  .bind (plain_sys trivial) fun _ => plain_check _ _

theorem plain_checkDestination (p : Path) : Plain Reading (checkDestination p : Prog F Unit) := by
  refine .bind (plain_lexists _) fun found => ?_
  cases found with
  | false => trivial
  | true => exact .bind (plain_sys trivial) fun _ => plain_check _ _

theorem plain_loadMetadata [FloatNum F] (m : Manager) (id : Json F) : Plain Reading (loadMetadata m id) := by
  unfold loadMetadata
  refine .bind (plain_lift _) fun safeId => ?_
  refine .bind (plain_lexists _) fun found => ?_
  refine .bind (plain_check _ _) fun _ => ?_
  refine .bind (plain_ask trivial) fun named => ?_
  refine .bind (plain_check _ _) fun _ => ?_
  refine .bind (.orElse (.bind (plain_ask trivial) fun fd => plain_ask trivial) fun e => trivial)
    fun data => ?_
  exact plain_lift _

theorem plain_openPayload (m : Manager) (payload : Path) (r : QuarantineRecord F) :
    Plain Reading (openPayload m payload r) := by
  refine .bind (plain_openRegularNofollow _ _) fun opened => ?_
  refine .bind (plain_hashFd _) fun hash => ?_
  refine .bind (plain_assertFdUnchanged _ _ _) fun _ => ?_
  exact .bind (plain_check _ _) fun _ => trivial

theorem plain_prepareRestoreTarget (m : Manager) (destination : Option PyStr) (original : Json F) :
    Plain Reading (prepareRestoreTarget m destination original : Prog F Path) := by
  refine .bind (plain_lift _) fun given => ?_
  refine .bind (plain_check _ _) fun _ => ?_
  split
  · trivial
  · refine .bind (plain_lexists _) fun _ => ?_
    refine .bind (plain_check _ _) fun _ => ?_
    refine .bind (.orElse (plain_ask trivial) fun _ => trivial) fun _ => ?_
    refine .bind (plain_check _ _) fun _ => ?_
    refine .bind (plain_lexists _) fun _ => ?_
    exact .bind (plain_check _ _) fun _ => trivial

end Elyra.Quarantine
