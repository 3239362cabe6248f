import Elyra.Python.Json

set_option autoImplicit false

/-! # How deep a value nests

`asdict` copies a value by calling itself for every container inside it, and raises `RecursionError`
where the interpreter's stack does not suffice. What decides it is the number of containers that lie
inside each other. -/

namespace Elyra.Python

variable {F : Type}

mutual

/-- The containers that lie inside each other, the value itself among them. -/
def Json.depth : Json F → Nat
  | .arr xs => depthList xs + 1
  | .obj kvs => depthMembers kvs + 1
  | _ => 0

def depthList : List (Json F) → Nat
  | [] => 0
  | x :: xs => max x.depth (depthList xs)

def depthMembers : List (PyStr × Json F) → Nat
  | [] => 0
  | (_, v) :: kvs => max v.depth (depthMembers kvs)

end

theorem depthMembers_le {kvs : List (PyStr × Json F)} {n : Nat} :
    depthMembers kvs ≤ n ↔ ∀ kv ∈ kvs, kv.2.depth ≤ n := by
  induction kvs with
  | nil => simp [depthMembers]
  | cons kv kvs ih => simp [depthMembers, ih]

@[simp] theorem depth_null : (Json.null : Json F).depth = 0 := rfl

@[simp] theorem depth_bool (b : Bool) : (Json.bool b : Json F).depth = 0 := rfl

@[simp] theorem depth_int (n : Int) : (Json.int n : Json F).depth = 0 := rfl

@[simp] theorem depth_float (f : F) : (Json.float f).depth = 0 := rfl

@[simp] theorem depth_str (s : PyStr) : (Json.str s : Json F).depth = 0 := rfl

end Elyra.Python
