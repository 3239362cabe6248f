import Elyra.Python.Raising
import Elyra.Service.Protocol

set_option autoImplicit false

/-! # Authorisation of peers

`authorize` of `service/authorization.py`: a read-only or standard action is open to every peer of
the socket, a sensitive one to root and to the members of `elyra-admin`. Membership is what the
system databases say (`Accounts`), asked anew for every request. -/

namespace Elyra.Service

open Elyra.Python

inductive ActionLevel where
  | readOnly
  | standard
  | sensitive
  deriving DecidableEq, Repr

/-- `ACTION_LEVELS`. -/
def IpcAction.level : IpcAction → ActionLevel
  | .scanFile => .standard
  | .restoreFile => .sensitive
  | .deletePermanently => .sensitive
  | .updateEnforcementPolicy => .sensitive
  | _ => .readOnly

/-- `REQUIRED_GROUP_FOR_SENSITIVE`. -/
def requiredGroupForSensitive : PyStr := py "elyra-admin"

/-- What `os.getgrouplist` raises. -/
inductive GroupListExc where
  | keyError
  | osError
  /-- The group is no `gid_t`: `SO_PEERCRED` is unpacked as signed integers, so a group from 2^31 on is
      negative. -/
  | overflowError
  deriving DecidableEq, Repr

/-- The user and group databases. -/
structure Accounts where
  /-- `pwd.getpwuid(uid).pw_name`. -/
  getpwuid : Int → Option PyStr
  /-- `grp.getgrnam(name).gr_gid`. -/
  getgrnam : PyStr → Option Int
  /-- `os.getgrouplist(user, gid)`. -/
  getgrouplist : PyStr → Int → Except GroupListExc (List Int)

structure Requester where
  pid : Int
  uid : Int
  gid : Int
  deriving DecidableEq, Repr

/-- What `authorize` raises. -/
inductive AuthorizeExc where
  /-- `AuthorizationError`, with its text. -/
  | denied (text : PyStr)
  /-- The `OverflowError` of `os.getgrouplist`. -/
  | overflow
  deriving DecidableEq, Repr

namespace Requester

def username (db : Accounts) (r : Requester) : PyStr :=
  match db.getpwuid r.uid with
  | some name => name
  | none => py "uid:" ++ intText r.uid

def isRoot (r : Requester) : Bool := r.uid == 0

/-- `group_ids`, which catches `KeyError` and `OSError` only. -/
def groupIds (db : Accounts) (r : Requester) : Except AuthorizeExc (List Int) :=
  match db.getgrouplist (r.username db) r.gid with
  | .ok groups => .ok groups
  | .error .overflowError => .error .overflow
  | .error _ => .ok [r.gid]

def inGroup (db : Accounts) (r : Requester) (name : PyStr) : Except AuthorizeExc Bool :=
  match db.getgrnam name with
  | none => .ok false
  | some gid => (r.groupIds db).map fun groups => decide (gid ∈ groups)

def inAdminGroup (db : Accounts) (r : Requester) : Except AuthorizeExc Bool :=
  r.inGroup db requiredGroupForSensitive

/-- `is_root() or in_admin_group()`. -/
def mayAct (db : Accounts) (r : Requester) : Except AuthorizeExc Bool :=
  if r.isRoot then .ok true else r.inAdminGroup db

/-- Root, or a member of `elyra-admin`. -/
def privileged (db : Accounts) (r : Requester) : Bool := r.mayAct db = .ok true

/-- The peer is not root, there is a group `elyra-admin`, and the peer's group is none that
    `os.getgrouplist` takes. -/
def Unlisted (db : Accounts) (r : Requester) : Prop :=
  r.uid ≠ 0 ∧ db.getgrnam requiredGroupForSensitive ≠ none ∧
    db.getgrouplist (r.username db) r.gid = .error .overflowError

theorem groupIds_error_iff {db : Accounts} {r : Requester} {e : AuthorizeExc} :
    r.groupIds db = .error e ↔
      e = .overflow ∧ db.getgrouplist (r.username db) r.gid = .error .overflowError := by
  unfold groupIds
  cases db.getgrouplist (r.username db) r.gid with
  | ok groups => simp
  | error e' => cases e' <;> simp [eq_comm]

/-- Asking for the privileges of a peer raises the `OverflowError` only. -/
theorem mayAct_error_iff {db : Accounts} {r : Requester} {e : AuthorizeExc} :
    r.mayAct db = .error e ↔ e = .overflow ∧ r.Unlisted db := by
  unfold mayAct isRoot Unlisted
  by_cases hroot : r.uid = 0
  · simp [hroot]
  rw [if_neg (by simpa using hroot), inAdminGroup, inGroup]
  cases db.getgrnam requiredGroupForSensitive with
  | none => simp
  | some gid => simp [map_error_iff, groupIds_error_iff, hroot]

end Requester

/-- `authorize`. -/
def authorize (db : Accounts) (r : Requester) (a : IpcAction) : Except AuthorizeExc Unit :=
  match a.level with
  | .readOnly => .ok ()
  | .standard => .ok ()
  | .sensitive => do
      if ← r.mayAct db then
        return
      throw (.denied (py "Action '" ++ a.name ++ py "' requires root or membership in '" ++
        requiredGroupForSensitive ++ py "'."))

/-- A sensitive action passes only for a privileged peer. -/
theorem authorize_ok_iff (db : Accounts) (r : Requester) (a : IpcAction) :
    authorize db r a = .ok () ↔ a.level ≠ .sensitive ∨ r.privileged db = true := by
  unfold authorize Requester.privileged
  cases hl : a.level with
  | readOnly => simp
  | standard => simp
  | sensitive =>
      cases r.mayAct db with
      | error e => simp [bind, Except.bind]
      | ok may => cases may <;> simp [bind, Except.bind, throw, throwThe, MonadExceptOf.throw, pure, Except.pure]

/-- The `OverflowError` leaves it for a sensitive action of a peer that is not listed. -/
theorem authorize_overflow_iff (db : Accounts) (r : Requester) (a : IpcAction) :
    authorize db r a = .error .overflow ↔ a.level = .sensitive ∧ r.Unlisted db := by
  unfold authorize
  cases hl : a.level with
  | readOnly => simp
  | standard => simp
  | sensitive =>
      have hraised : r.mayAct db = .error .overflow ↔ _ := Requester.mayAct_error_iff
      cases hmay : r.mayAct db with
      | error e =>
          rw [hmay] at hraised
          simpa [bind, Except.bind] using hraised
      | ok may =>
          rw [hmay] at hraised
          have hlisted : ¬ r.Unlisted db := by
            intro h
            cases hraised.2 ⟨rfl, h⟩
          cases may <;>
            simp [bind, Except.bind, throw, throwThe, MonadExceptOf.throw, pure, Except.pure, hlisted]

end Elyra.Service
