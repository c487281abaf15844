/-!
# Types of values

A type is a base type with a number of lanes: `double` has one lane, `float4`
four.  `ValueType.ofText?` reads the spelling that `ValueType.text` writes.

Arithmetic promotes `int < float < double`; `ValueType.promote` gives the type
two operands meet in.
-/

namespace Shading

inductive Base where
  | void
  | bool
  | int
  | float
  | double
deriving DecidableEq

namespace Base

def all : List Base := [.void, .bool, .int, .float, .double]

def name : Base → String
  | .void => "void"
  | .bool => "bool"
  | .int => "int"
  | .float => "float"
  | .double => "double"

def ofName? (name : String) : Option Base := all.find? (·.name == name)

/-- Size of one element in bytes. -/
def size : Base → Nat
  | .void => 0
  | .bool | .int | .float => 4
  | .double => 8

/-- Place in the order of promotion, for the types that take part in it. -/
def rank? : Base → Option Nat
  | .int => some 0
  | .float => some 1
  | .double => some 2
  | .void | .bool => none

def isNumeric (base : Base) : Bool := base.rank?.isSome

def isFloating : Base → Bool
  | .float | .double => true
  | _ => false

end Base

structure ValueType where
  base : Base
  lanes : Nat
deriving DecidableEq

namespace ValueType

def maxLanes : Nat := 4

def scalar (base : Base) : ValueType := ⟨base, 1⟩

def void : ValueType := scalar .void

def bool : ValueType := scalar .bool

def int : ValueType := scalar .int

def float : ValueType := scalar .float

def double : ValueType := scalar .double

def withBase (ty : ValueType) (base : Base) : ValueType := { ty with base }

def isVoid (ty : ValueType) : Bool := ty.base = .void

def isVector (ty : ValueType) : Bool := 1 < ty.lanes

def isScalar (ty : ValueType) (base : Base) : Bool := ty = scalar base

/-- Size of the whole value in bytes. -/
def size (ty : ValueType) : Nat := ty.base.size * ty.lanes

/-- Base types that convert without being asked to. -/
def widens : Base → Base → Bool
  | .int, .float | .int, .double | .float, .double | .double, .float => true
  | _, _ => false

/-- A value converts implicitly between types of as many lanes, from integer
to floating point and between the two floating point widths. -/
def convertsTo (source target : ValueType) : Bool :=
  source = target || (source.lanes = target.lanes && widens source.base target.base)

/-- What an explicit cast may do. -/
def castsTo (source target : ValueType) : Bool :=
  source.lanes = target.lanes && !source.isVoid && !target.isVoid

/-- The type two arithmetic operands are promoted to. -/
def promote (a b : ValueType) : Option ValueType :=
  if a.lanes ≠ b.lanes then none
  else
    match a.base.rank?, b.base.rank? with
    | some i, some j => some (if j ≤ i then a else b)
    | _, _ => none

def text (ty : ValueType) : String :=
  if ty.isVector then ty.base.name ++ toString ty.lanes else ty.base.name

/-- Value of a text of digits. -/
def digits? (text : List Char) : Option Nat :=
  if text.all Char.isDigit then
    some (text.foldl (fun n c => 10 * n + (c.toNat - '0'.toNat)) 0)
  else
    none

/-- Reads a base type, optionally followed by a number of lanes from two on.
Zeros may stand in front of the number. -/
def ofText? (text : String) : Option ValueType :=
  let chars := text.toList
  match Base.ofName? (String.ofList (chars.takeWhile (!·.isDigit))) with
  | none => none
  | some base =>
    match chars.dropWhile (!·.isDigit) with
    | [] => some (scalar base)
    | suffix =>
      match digits? suffix with
      | some lanes =>
        if 2 ≤ lanes && lanes ≤ maxLanes && base ≠ .void then some ⟨base, lanes⟩ else none
      | none => none

end ValueType

end Shading
