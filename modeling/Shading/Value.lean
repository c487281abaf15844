import Shading.Number.Decimal
import Shading.ValueType

/-!
# Scalar constants

A `Value` is a constant of one of the four scalar types, held as the machine
word that generated code computes with.  Conversions (`Value.cast`) are the
ones generated code performs, so a constant computed at compile time is the
one computed at run time.
-/

namespace Shading

inductive Value where
  | bool (b : Bool)
  | int (n : Int32)
  | float (x : Binary32)
  | double (x : Binary64)
deriving DecidableEq

namespace Value

def base : Value → Base
  | .bool _ => .bool
  | .int _ => .int
  | .float _ => .float
  | .double _ => .double

def type (value : Value) : ValueType := .scalar value.base

/-- The number one of a numeric type. -/
def one? : Base → Option Value
  | .int => some (.int 1)
  | .float => some (.float .one)
  | .double => some (.double .one)
  | .void | .bool => none

def toBool? : Value → Option Bool
  | .bool b => some b
  | _ => none

/-- A zero of either sign. -/
def isZero : Value → Bool
  | .bool _ => false
  | .int n => n = 0
  | .float x => x.eq .zero
  | .double x => x.eq .zero

/-- The zero that `x - 0` leaves `x` alone with. -/
def isPositiveZero : Value → Bool
  | .float x => x = .zero
  | .double x => x = .zero
  | value => value.isZero

def isOne : Value → Bool
  | .bool _ => false
  | .int n => n = 1
  | .float x => x.eq .one
  | .double x => x.eq .one

/-- The machine word, without its type. -/
def bits : Value → UInt64
  | .bool b => b.toUInt64
  | .int n => n.toUInt32.toUInt64
  | .float x => x.bits.toUInt64
  | .double x => x.bits

/-- Converts to another base type.  Nothing converts to `void`. -/
def cast : Value → Base → Option Value
  | _, .void => none
  | .bool b, .bool => some (.bool b)
  | .bool b, .int => some (.int (if b then 1 else 0))
  | .bool b, .float => some (.float (if b then .one else .zero))
  | .bool b, .double => some (.double (if b then .one else .zero))
  | .int n, .bool => some (.bool (n ≠ 0))
  | .int n, .int => some (.int n)
  | .int n, .float => some (.float (.ofInt n))
  | .int n, .double => some (.double (.ofInt n))
  | .float x, .bool => some (.bool (!x.eq .zero))
  | .float x, .int => some (.int x.widen.toInt)
  | .float x, .float => some (.float x)
  | .float x, .double => some (.double x.widen)
  | .double x, .bool => some (.bool (!x.eq .zero))
  | .double x, .int => some (.int x.toInt)
  | .double x, .float => some (.float x.narrow)
  | .double x, .double => some (.double x)

/-- Text of a constant; single precision has the suffix `f`. -/
def text : Value → String
  | .bool b => if b then "true" else "false"
  | .int n => toString n.toInt
  | .float x => x.text ++ "f"
  | .double x => x.text

end Value

end Shading
