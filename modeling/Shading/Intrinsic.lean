import Shading.Value

/-!
# Built-in functions

Every intrinsic takes one or two arguments of one type and returns that type.
`Intrinsic.resolve` finds the type from the arguments' types; integers become
doubles except for `abs`, `min` and `max`.  `Intrinsic.evaluate` computes on
constants: a single precision argument of a unary function is computed in
double precision and rounded once.
-/

namespace Shading

inductive Intrinsic where
  | abs
  | sqrt
  | floor
  | ceil
  | trunc
  | round
  | sin
  | cos
  | tan
  | exp
  | log
  | min
  | max
  | pow
deriving DecidableEq

namespace Intrinsic

def all : List Intrinsic :=
  [.abs, .sqrt, .floor, .ceil, .trunc, .round, .sin, .cos, .tan, .exp, .log, .min, .max, .pow]

def name : Intrinsic → String
  | .abs => "abs"
  | .sqrt => "sqrt"
  | .floor => "floor"
  | .ceil => "ceil"
  | .trunc => "trunc"
  | .round => "round"
  | .sin => "sin"
  | .cos => "cos"
  | .tan => "tan"
  | .exp => "exp"
  | .log => "log"
  | .min => "min"
  | .max => "max"
  | .pow => "pow"

def ofName? (name : String) : Option Intrinsic := all.find? (·.name == name)

def arity : Intrinsic → Nat
  | .min | .max | .pow => 2
  | _ => 1

def acceptsIntegers : Intrinsic → Bool
  | .abs | .min | .max => true
  | _ => false

/-- Functions no single instruction computes. -/
def isTranscendental : Intrinsic → Bool
  | .sin | .cos | .tan | .exp | .log | .pow => true
  | _ => false

/-- The type all arguments are promoted to, if they have one. -/
def commonType : List ValueType → Option ValueType
  | [] => none
  | ty :: rest => rest.foldlM ValueType.promote ty

/-- Type of the parameters and of the result of a call with arguments of the
given types. -/
def resolve (f : Intrinsic) (arguments : List ValueType) : Option ValueType :=
  if arguments.length ≠ f.arity then none
  else
    match commonType arguments with
    | none => none
    | some ty =>
      match ty.base with
      | .float | .double => some ty
      | .int => some (if f.acceptsIntegers then ty else ty.withBase .double)
      | .void | .bool => none

/-- The first of two numbers if it is less, otherwise the second. -/
def select {α : Type} (less : α → α → Bool) (a b : α) : α := if less a b then a else b

def onInt : Intrinsic → Int32 → Option Int32
  | .abs, n => some (if n < 0 then -n else n)
  | _, _ => none

def onInts : Intrinsic → Int32 → Int32 → Option Int32
  | .min, a, b => some (if b < a then b else a)
  | .max, a, b => some (if b < a then a else b)
  | _, _, _ => none

def onDouble : Intrinsic → Binary64 → Option Binary64
  | .abs, x => some x.abs
  | .sqrt, x => some x.sqrt
  | .floor, x => some x.floor
  | .ceil, x => some x.ceil
  | .trunc, x => some x.trunc
  | .round, x => some x.roundEven
  | .sin, x => some x.sin
  | .cos, x => some x.cos
  | .tan, x => some x.tan
  | .exp, x => some x.exp
  | .log, x => some x.log
  | _, _ => none

def onDoubles : Intrinsic → Binary64 → Binary64 → Option Binary64
  | .min, a, b => some (select Binary64.lt a b)
  | .max, a, b => some (select (fun x y => y.lt x) a b)
  | .pow, a, b => some (a.pow b)
  | _, _, _ => none

def onFloats : Intrinsic → Binary32 → Binary32 → Option Binary32
  | .min, a, b => some (select Binary32.lt a b)
  | .max, a, b => some (select (fun x y => y.lt x) a b)
  | .pow, a, b => some (a.pow b)
  | _, _, _ => none

/-- Value of the function on constants that have its parameter type. -/
def evaluate (f : Intrinsic) : List Value → Option Value
  | [.int n] => (f.onInt n).map .int
  | [.int a, .int b] => (f.onInts a b).map .int
  | [.float x] => (f.onDouble x.widen).map (.float ·.narrow)
  | [.float a, .float b] => (f.onFloats a b).map .float
  | [.double x] => (f.onDouble x).map .double
  | [.double a, .double b] => (f.onDoubles a b).map .double
  | _ => none

end Intrinsic

end Shading
