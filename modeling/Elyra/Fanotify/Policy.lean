import Elyra.Python.Exceptions

set_option autoImplicit false

/-! # The fanotify policy

Which paths are monitored, excluded or fail closed, and what becomes of a decision in each mode. A
path is inside another one when `os.path.commonpath` of the two is the outer one. The mode is the one
field that changes while events are handled (`set_mode`, from an IPC client), so the methods that
read it take it as an argument. -/

namespace Elyra.Fanotify

open Elyra.Python

/-- The values of `VALID_MODES`. -/
inductive Mode where
  | monitorOnly
  | enforcement
  deriving DecidableEq, Repr

def Mode.text : Mode → PyStr
  | .monitorOnly => py "MONITOR_ONLY"
  | .enforcement => py "ENFORCEMENT"

/-- The values of `VALID_FAIL_POLICIES`. -/
inductive FailPolicy where
  | failOpen
  | failClosed
  deriving DecidableEq, Repr

/-! ## Paths -/

/-- `os.path.isabs`. -/
def isAbs (path : PyStr) : Bool := path.head? == some 47

/-- `os.path.join(parent, path)`. -/
def joinPath (parent path : PyStr) : PyStr :=
  if isAbs path then path
  else if parent = [] ∨ parent.getLast? = some 47 then parent ++ path
  else parent ++ 47 :: path

/-- `_normalise`. A relative path needs `os.getcwd()`, which may fail. -/
def normalise (cwd : Except Exc PyStr) (path : PyStr) : Except Exc PyStr :=
  if isAbs path then .ok (normpath (normpath path))
  else
    match cwd with
    | .ok dir => .ok (normpath (normpath (joinPath dir path)))
    | .error exc => .error exc

/-- The components `os.path.commonpath` compares: not the empty ones and not `.`. -/
def components (path : PyStr) : List PyStr :=
  (splitSlash path).filter fun comp => comp ≠ [] ∧ comp ≠ py "."

/-- The longest common beginning of two lists. -/
def commonStart {α : Type} [DecidableEq α] : List α → List α → List α
  | a :: as, b :: bs => if a = b then a :: commonStart as bs else []
  | _, _ => []

/-- `os.path.commonpath((a, b))`; `none` is the `ValueError` for a mix of absolute and relative. -/
def commonpath (a b : PyStr) : Option PyStr :=
  if isAbs a = isAbs b then
    some ((if isAbs a then [47] else []) ++
      List.intercalate [47] (commonStart (components a) (components b)))
  else none

/-- `_contains`. -/
def contains (parent child : PyStr) : Bool := commonpath parent child == some parent

/-! ## The policy -/

/-- The fields of `FanotifyPolicy` that handling an event reads, the mode apart. The path lists are as
    `__post_init__` leaves them. -/
structure FanotifyPolicy (T : Type) where
  defaultFailPolicy : FailPolicy
  monitoredPaths : List PyStr
  excludedPaths : List PyStr
  failClosedPaths : List PyStr
  maxResponseSeconds : T
  maxPreexecFileBytes : Nat
  excludeDaemonDescendants : Bool

namespace FanotifyPolicy

variable {T : Type}

/-- The candidate a method tests: `None` and the empty path have none. -/
def candidate (cwd : Except Exc PyStr) (path : Option PyStr) : Except Exc (Option PyStr) :=
  match path with
  | none => .ok none
  | some [] => .ok none
  | some path => (normalise cwd path).map some

def isExcludedPath (p : FanotifyPolicy T) (cwd : Except Exc PyStr) (path : Option PyStr) :
    Except Exc Bool :=
  (candidate cwd path).map fun c =>
    match c with
    | none => false
    | some child => p.excludedPaths.any fun excluded => contains excluded child

def shouldMonitor (p : FanotifyPolicy T) (cwd : Except Exc PyStr) (path : Option PyStr) :
    Except Exc Bool :=
  (candidate cwd path).map fun c =>
    match c with
    | none => false
    | some child =>
        if p.excludedPaths.any (fun excluded => contains excluded child) then false
        else p.monitoredPaths.any fun included => contains included child

def getFailPolicy (p : FanotifyPolicy T) (cwd : Except Exc PyStr) (path : Option PyStr) :
    Except Exc FailPolicy :=
  (candidate cwd path).map fun c =>
    match c with
    | none => p.defaultFailPolicy
    | some child =>
        if p.failClosedPaths.any (fun closed => contains closed child) then .failClosed
        else p.defaultFailPolicy

end FanotifyPolicy

/-- `get_final_action`. -/
def getFinalAction (mode : Mode) (decision : PyStr) : PyStr :=
  match mode with
  | .monitorOnly => py "ALLOW"
  | .enforcement => if upper decision = py "DENY" then py "DENY" else py "ALLOW"

end Elyra.Fanotify
