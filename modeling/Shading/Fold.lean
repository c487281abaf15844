import Shading.Operator
import Shading.Value

/-!
# Operators on constants

Integer arithmetic wraps at 32 bits and a shift takes its count modulo 32.
Floating point follows IEEE 754 in the width of the operands.  The only
operation without a result is integer division by zero; operands an operator
is not defined for are left alone (`FoldError.unsupported`).
-/

namespace Shading

inductive FoldError where
  | divisionByZero
  | unsupported
deriving DecidableEq

/-- Result of a unary operator whose node has type `ty`. -/
def UnaryOp.fold : UnaryOp → Value → (ty : ValueType) → Except FoldError Value
  | .negate, .int n, _ => .ok (.int (-n))
  | .negate, .float x, _ => .ok (.float x.neg)
  | .negate, .double x, _ => .ok (.double x.neg)
  | .not, .bool b, _ => .ok (.bool (!b))
  | .complement, .int n, _ => .ok (.int (~~~n))
  | .cast, value, ty =>
    if ty.isVector then .error .unsupported
    else
      match value.cast ty.base with
      | some result => .ok result
      | none => .error .unsupported
  | _, _, _ => .error .unsupported

namespace BinaryOp

def foldInt (op : BinaryOp) (a b : Int32) : Except FoldError Value :=
  match op with
  | .add => .ok (.int (a + b))
  | .sub => .ok (.int (a - b))
  | .mul => .ok (.int (a * b))
  | .div => if b = 0 then .error .divisionByZero else .ok (.int (a / b))
  | .mod => if b = 0 then .error .divisionByZero else .ok (.int (a % b))
  | .bitAnd => .ok (.int (a &&& b))
  | .bitOr => .ok (.int (a ||| b))
  | .bitXor => .ok (.int (a ^^^ b))
  | .shiftLeft => .ok (.int (a <<< b))
  | .shiftRight => .ok (.int (a >>> b))
  | .eq => .ok (.bool (a = b))
  | .ne => .ok (.bool (a ≠ b))
  | .lt => .ok (.bool (a < b))
  | .le => .ok (.bool (a ≤ b))
  | .gt => .ok (.bool (b < a))
  | .ge => .ok (.bool (b ≤ a))
  | .assign | .and | .or => .error .unsupported

def foldFloat (op : BinaryOp) (a b : Binary32) : Except FoldError Value :=
  match op with
  | .add => .ok (.float (a.add b))
  | .sub => .ok (.float (a.sub b))
  | .mul => .ok (.float (a.mul b))
  | .div => .ok (.float (a.div b))
  | .eq => .ok (.bool (a.eq b))
  | .ne => .ok (.bool (!a.eq b))
  | .lt => .ok (.bool (a.lt b))
  | .le => .ok (.bool (a.le b))
  | .gt => .ok (.bool (b.lt a))
  | .ge => .ok (.bool (b.le a))
  | _ => .error .unsupported

def foldDouble (op : BinaryOp) (a b : Binary64) : Except FoldError Value :=
  match op with
  | .add => .ok (.double (a.add b))
  | .sub => .ok (.double (a.sub b))
  | .mul => .ok (.double (a.mul b))
  | .div => .ok (.double (a.div b))
  | .eq => .ok (.bool (a.eq b))
  | .ne => .ok (.bool (!a.eq b))
  | .lt => .ok (.bool (a.lt b))
  | .le => .ok (.bool (a.le b))
  | .gt => .ok (.bool (b.lt a))
  | .ge => .ok (.bool (b.le a))
  | _ => .error .unsupported

def foldBool (op : BinaryOp) (a b : Bool) : Except FoldError Value :=
  match op with
  | .eq => .ok (.bool (a == b))
  | .ne | .bitXor => .ok (.bool (a != b))
  | .bitAnd | .and => .ok (.bool (a && b))
  | .bitOr | .or => .ok (.bool (a || b))
  | _ => .error .unsupported

/-- Result of a binary operator on two constants of one type. -/
def fold (op : BinaryOp) : Value → Value → Except FoldError Value
  | .int a, .int b => op.foldInt a b
  | .float a, .float b => op.foldFloat a b
  | .double a, .double b => op.foldDouble a b
  | .bool a, .bool b => op.foldBool a b
  | _, _ => .error .unsupported

end BinaryOp

end Shading
