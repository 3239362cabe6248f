import Elyra.Python.Builtins

set_option autoImplicit false

/-! # Floats in order -/

namespace Elyra.Python

/-- What code does with floats besides printing them. -/
class OrderedFloat (F : Type) extends FloatNum F where
  /-- `float(n)`; `OverflowError` for an integer that is too large. -/
  ofInt : Int → Except PyExc F
  /-- `x <= y`, which is false where one of them is NaN. -/
  le : F → F → Bool
  le_trans : ∀ {x y z : F}, le x y = true → le y z = true → le x z = true

variable {F : Type} [OrderedFloat F]

/-- `float(value)`. -/
def pyFloat : Json F → Except PyExc F
  | .float f => .ok f
  | .bool b => OrderedFloat.ofInt (if b then 1 else 0)
  | .int n => OrderedFloat.ofInt n
  | .str s =>
      match FloatNum.ofStr s with
      | some f => .ok f
      | none => .error .valueError
  | _ => .error .typeError

instance : OrderedFloat SampleFloat where
  ofInt n := if n = 0 then .ok .zero else .error .overflowError
  le
    | .nan, _ => false
    | _, .nan => false
    | .negInf, _ => true
    | _, .inf => true
    | .zero, .zero => true
    | _, _ => false
  le_trans := by
    intro x y z
    cases x <;> cases y <;> cases z <;> decide

end Elyra.Python
