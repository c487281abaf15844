/-!
# Operators of expressions

The unary and binary operators, their spelling, the classes that decide how
operands are typed, and the precedence of C: a higher number binds tighter.
-/

namespace Shading

inductive UnaryOp where
  | negate
  | not
  | complement
  | preIncrement
  | preDecrement
  | postIncrement
  | postDecrement
  /-- Conversion to the type of the node. -/
  | cast
deriving DecidableEq

namespace UnaryOp

def all : List UnaryOp :=
  [.negate, .not, .complement, .preIncrement, .preDecrement, .postIncrement, .postDecrement, .cast]

def symbol : UnaryOp → String
  | .negate => "-"
  | .not => "!"
  | .complement => "~"
  | .preIncrement => "++()"
  | .preDecrement => "--()"
  | .postIncrement => "()++"
  | .postDecrement => "()--"
  | .cast => "cast"

/-- Whether the operator changes its operand. -/
def isStep : UnaryOp → Bool
  | .preIncrement | .preDecrement | .postIncrement | .postDecrement => true
  | _ => false

/-- Whether the result is the operand after the change. -/
def isPreStep : UnaryOp → Bool
  | .preIncrement | .preDecrement => true
  | _ => false

def isIncrement : UnaryOp → Bool
  | .preIncrement | .postIncrement => true
  | _ => false

/-- Whether applying the operator twice gives the operand back. -/
def isInvolution : UnaryOp → Bool
  | .negate | .not | .complement => true
  | _ => false

end UnaryOp

inductive BinaryOp where
  | assign
  | add
  | sub
  | mul
  | div
  | mod
  | eq
  | ne
  | lt
  | le
  | gt
  | ge
  | and
  | or
  | bitAnd
  | bitOr
  | bitXor
  | shiftLeft
  | shiftRight
deriving DecidableEq

inductive OperatorClass where
  | assignment
  | arithmetic
  | bitwise
  | shift
  | comparison
  | logical
deriving DecidableEq

namespace BinaryOp

def all : List BinaryOp :=
  [.assign, .add, .sub, .mul, .div, .mod, .eq, .ne, .lt, .le, .gt, .ge, .and, .or,
    .bitAnd, .bitOr, .bitXor, .shiftLeft, .shiftRight]

def symbol : BinaryOp → String
  | .assign => "="
  | .add => "+"
  | .sub => "-"
  | .mul => "*"
  | .div => "/"
  | .mod => "%"
  | .eq => "=="
  | .ne => "!="
  | .lt => "<"
  | .le => "<="
  | .gt => ">"
  | .ge => ">="
  | .and => "&&"
  | .or => "||"
  | .bitAnd => "&"
  | .bitOr => "|"
  | .bitXor => "^"
  | .shiftLeft => "<<"
  | .shiftRight => ">>"

def operatorClass : BinaryOp → OperatorClass
  | .assign => .assignment
  | .add | .sub | .mul | .div | .mod => .arithmetic
  | .bitAnd | .bitOr | .bitXor => .bitwise
  | .shiftLeft | .shiftRight => .shift
  | .eq | .ne | .lt | .le | .gt | .ge => .comparison
  | .and | .or => .logical

def precedence : BinaryOp → Nat
  | .assign => 0
  | .or => 1
  | .and => 2
  | .bitOr => 3
  | .bitXor => 4
  | .bitAnd => 5
  | .eq | .ne => 6
  | .lt | .le | .gt | .ge => 7
  | .shiftLeft | .shiftRight => 8
  | .add | .sub => 9
  | .mul | .div | .mod => 10

def isEquality : BinaryOp → Bool
  | .eq | .ne => true
  | _ => false

/-- Whether the operator divides, and so is undefined on an integer zero. -/
def isDivision : BinaryOp → Bool
  | .div | .mod => true
  | _ => false

end BinaryOp

end Shading
