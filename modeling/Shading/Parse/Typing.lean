import Shading.Parse.Stream
import Shading.Swizzle

/-!
# Typed expressions

Expressions are typed from the leaves up.  Operands of arithmetic and
comparisons are converted to their common type; a literal is converted at
once, anything else is wrapped in a cast.
-/

namespace Shading

namespace Parser

/-- Converts a value implicitly. -/
def coerce (node : Node) (target : ValueType) : Parser Node := do
  if node.type = target then
    return node
  else if !node.type.convertsTo target then
    fail (.typeMismatch target node.type) node.span
  else
    match node.immediate?.bind (·.cast target.base) with
    | some value => return node.toImmediate value
    | none => return node.wrapInCast (← freshId) target

/-- `(type)operand`; nothing is left of a cast to the type it has. -/
def makeCast (operand : Node) (type : ValueType) (span : Span) : Parser Node := do
  if operand.type = type then
    return operand
  else if !operand.type.castsTo type then
    fail (.invalidCast operand.type type) span
  else
    makeNode (.unary .cast operand) type span

/-- Fails unless a value can be stored in `target`. -/
def checkAssignable (target : Node) (operatorSpan : Span) : Parser Unit := do
  let span := target.span.join operatorSpan
  match target.form with
  | .var id =>
    let symbol ← symbol id
    if symbol.isWritable then
      return ()
    else if symbol.isConst then
      fail (.constantTarget symbol.name) span
    else
      fail (.readOnlyTarget symbol.name) span
  | _ => fail .notAssignable span

/-- Base types a unary operator applies to. -/
def acceptsBase : UnaryOp → Base → Bool
  | .not, base => base = .bool
  | .complement, base => base = .int
  | .cast, _ => true
  | _, base => base.isNumeric

def makeUnary (op : UnaryOp) (operand : Node) (span : Span) : Parser Node := do
  if op.isStep then checkAssignable operand span
  if acceptsBase op operand.type.base then
    makeNode (.unary op operand) operand.type span
  else
    fail (.invalidOperand op.symbol operand.type) span

/-- What an operator makes of its operand types: the type the operands are
converted to, if any, and the type of the result. -/
structure OperatorTyping where
  operands? : Option ValueType
  result : ValueType
deriving DecidableEq

def operatorTyping? (op : BinaryOp) (lhs rhs : ValueType) : Option OperatorTyping :=
  match op.operatorClass with
  | .assignment => none
  | .arithmetic =>
    match lhs.promote rhs with
    | some common => if op = .mod && common.base ≠ .int then none else some ⟨some common, common⟩
    | none => none
  | .bitwise =>
    if lhs = rhs && (lhs.base = .int || lhs.base = .bool) then some ⟨none, lhs⟩ else none
  | .shift => if lhs = rhs && lhs.base = .int then some ⟨none, lhs⟩ else none
  | .comparison =>
    let common? :=
      if op.isEquality && lhs = rhs && lhs.base = .bool then some lhs else lhs.promote rhs
    common?.map fun common => ⟨some common, common.withBase .bool⟩
  | .logical => if lhs = .bool && rhs = .bool then some ⟨none, .bool⟩ else none

def makeBinary (op : BinaryOp) (lhs rhs : Node) : Parser Node := do
  let span := lhs.span.join rhs.span
  match operatorTyping? op lhs.type rhs.type with
  | none => fail (.invalidOperands op.symbol lhs.type rhs.type) span
  | some ⟨none, result⟩ => makeNode (.binary op lhs rhs) result span
  | some ⟨some common, result⟩ =>
    let lhs ← coerce lhs common
    let rhs ← coerce rhs common
    makeNode (.binary op lhs rhs) result span

def makeSwizzle (object : Node) (field : Token) : Parser Node := do
  let span := object.span.join field.span
  match swizzleType object.type field.text with
  | some type => makeNode (.swizzle object field.text) type span
  | none => fail (.invalidSwizzle field.text object.type) span

end Parser

end Shading
