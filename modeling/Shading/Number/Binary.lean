/-!
# Floating point numbers by bit pattern

`Binary32` and `Binary64` are the two widths of IEEE 754 numbers the shading
language computes with.  A number is its word, so two numbers are equal when
their bits are: `0.0` and `-0.0` differ, and a NaN equals itself.  The
comparisons of the language (`lt`, `le`, `eq`) are the IEEE ones.

Arithmetic is rounded once, in the width of its operands.  Negation and
absolute value only touch the sign bit.
-/

namespace Shading

/-- A single precision number. -/
structure Binary32 where
  bits : UInt32
deriving DecidableEq

/-- A double precision number. -/
structure Binary64 where
  bits : UInt64
deriving DecidableEq

namespace Binary32

def toFloat (x : Binary32) : Float32 := Float32.ofBits x.bits

def ofFloat (x : Float32) : Binary32 := ⟨x.toBits⟩

def zero : Binary32 := ⟨0⟩

def one : Binary32 := ⟨0x3f800000⟩

def infinity : Binary32 := ⟨0x7f800000⟩

def ofInt (n : Int32) : Binary32 := ofFloat n.toFloat32

def add (x y : Binary32) : Binary32 := ofFloat (x.toFloat + y.toFloat)

def sub (x y : Binary32) : Binary32 := ofFloat (x.toFloat - y.toFloat)

def mul (x y : Binary32) : Binary32 := ofFloat (x.toFloat * y.toFloat)

def div (x y : Binary32) : Binary32 := ofFloat (x.toFloat / y.toFloat)

def pow (x y : Binary32) : Binary32 := ofFloat (x.toFloat.pow y.toFloat)

def neg (x : Binary32) : Binary32 := ⟨x.bits ^^^ 0x80000000⟩

def eq (x y : Binary32) : Bool := x.toFloat == y.toFloat

def lt (x y : Binary32) : Bool := decide (x.toFloat < y.toFloat)

def le (x y : Binary32) : Bool := decide (x.toFloat ≤ y.toFloat)

/-- The same number in double precision. -/
def widen (x : Binary32) : Binary64 := ⟨x.toFloat.toFloat.toBits⟩

end Binary32

namespace Binary64

def toFloat (x : Binary64) : Float := Float.ofBits x.bits

def ofFloat (x : Float) : Binary64 := ⟨x.toBits⟩

def zero : Binary64 := ⟨0⟩

def one : Binary64 := ⟨0x3ff0000000000000⟩

def infinity : Binary64 := ⟨0x7ff0000000000000⟩

def ofInt (n : Int32) : Binary64 := ofFloat n.toFloat

def add (x y : Binary64) : Binary64 := ofFloat (x.toFloat + y.toFloat)

def sub (x y : Binary64) : Binary64 := ofFloat (x.toFloat - y.toFloat)

def mul (x y : Binary64) : Binary64 := ofFloat (x.toFloat * y.toFloat)

def div (x y : Binary64) : Binary64 := ofFloat (x.toFloat / y.toFloat)

def pow (x y : Binary64) : Binary64 := ofFloat (x.toFloat.pow y.toFloat)

def sqrt (x : Binary64) : Binary64 := ofFloat x.toFloat.sqrt

def floor (x : Binary64) : Binary64 := ofFloat x.toFloat.floor

def ceil (x : Binary64) : Binary64 := ofFloat x.toFloat.ceil

def sin (x : Binary64) : Binary64 := ofFloat x.toFloat.sin

def cos (x : Binary64) : Binary64 := ofFloat x.toFloat.cos

def tan (x : Binary64) : Binary64 := ofFloat x.toFloat.tan

def exp (x : Binary64) : Binary64 := ofFloat x.toFloat.exp

def log (x : Binary64) : Binary64 := ofFloat x.toFloat.log

def neg (x : Binary64) : Binary64 := ⟨x.bits ^^^ 0x8000000000000000⟩

def abs (x : Binary64) : Binary64 := ⟨x.bits &&& 0x7fffffffffffffff⟩

/-- `x` with the sign of `y`. -/
def copySign (x y : Binary64) : Binary64 :=
  ⟨(x.bits &&& 0x7fffffffffffffff) ||| (y.bits &&& 0x8000000000000000)⟩

def eq (x y : Binary64) : Bool := x.toFloat == y.toFloat

def lt (x y : Binary64) : Bool := decide (x.toFloat < y.toFloat)

def le (x y : Binary64) : Bool := decide (x.toFloat ≤ y.toFloat)

def isNaN (x : Binary64) : Bool := x.toFloat.isNaN

/-- The nearest single precision number. -/
def narrow (x : Binary64) : Binary32 := ⟨x.toFloat.toFloat32.toBits⟩

/-- Rounds toward zero. -/
def trunc (x : Binary64) : Binary64 := if x.lt zero then x.ceil else x.floor

/-- `2 ^ 52`, from which on every number is an integer. -/
def integral : Binary64 := ⟨0x4330000000000000⟩

/-- Rounds to the nearest integer, a half to the even one.  Adding `2 ^ 52`
leaves no room for a fraction, so the sum is rounded that way. -/
def roundEven (x : Binary64) : Binary64 :=
  if x.abs.lt integral then ((x.abs.add integral).sub integral).copySign x else x

/-- Rounds toward zero into 32 bits.  NaN and everything outside the range
gives the least integer. -/
def toInt (x : Binary64) : Int32 :=
  let value := x.toFloat
  if value.isNaN || decide (value ≥ 2147483648.0) || decide (value ≤ -2147483649.0) then
    Int32.minValue
  else
    value.toInt32

end Binary64

end Shading
