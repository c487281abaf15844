import Shading.Parse.Typing

/-!
# Expressions

Assignment is right associative and binds weakest; the other binary operators
are parsed by climbing their precedences.  The definitions take the parsers
for what stands further inside as an argument, `Grammar`, and use it only
after they have taken a token.
-/

namespace Shading

/-- Parsers for nested constructs. -/
structure Grammar where
  /-- A statement; declarations give several nodes, `;` gives none. -/
  statement : Parser (List Node)
  /-- An expression with assignments. -/
  expression : Parser Node
  /-- Binary operators of at least some precedence. -/
  binary : Nat → Parser Node
  unary : Parser Node

namespace TokenKind

/-- The operator of a compound assignment. -/
def compoundOp? : TokenKind → Option BinaryOp
  | .plusEquals => some .add
  | .minusEquals => some .sub
  | .multiplyEquals => some .mul
  | .divideEquals => some .div
  | .modulusEquals => some .mod
  | .bitwiseAndEquals => some .bitAnd
  | .bitwiseOrEquals => some .bitOr
  | .bitwiseXorEquals => some .bitXor
  | .shiftLeftEquals => some .shiftLeft
  | .shiftRightEquals => some .shiftRight
  | _ => none

def binaryOp? : TokenKind → Option BinaryOp
  | .logicalOr => some .or
  | .logicalAnd => some .and
  | .bitwiseOr => some .bitOr
  | .bitwiseXor => some .bitXor
  | .bitwiseAnd => some .bitAnd
  | .doubleEquals => some .eq
  | .notEquals => some .ne
  | .lessThan => some .lt
  | .lessThanOrEqualTo => some .le
  | .greaterThan => some .gt
  | .greaterThanOrEqualTo => some .ge
  | .shiftLeft => some .shiftLeft
  | .shiftRight => some .shiftRight
  | .plus => some .add
  | .minus => some .sub
  | .asterisk => some .mul
  | .divide => some .div
  | .modulus => some .mod
  | _ => none

/-- Operators written before their operand, `+` apart. -/
def prefixOp? : TokenKind → Option UnaryOp
  | .minus => some .negate
  | .bang => some .not
  | .tilde => some .complement
  | .increment => some .preIncrement
  | .decrement => some .preDecrement
  | _ => none

def suffixOp? : TokenKind → Option UnaryOp
  | .increment => some .postIncrement
  | .decrement => some .postDecrement
  | _ => none

end TokenKind

/-- Reads a decimal integer below `2 ^ 32`; the upper half stands for the
negative numbers, so that `-2147483648` can be written. -/
def integerLiteral? (text : String) : Option Int32 :=
  match ValueType.digits? text.toList with
  | some n => if n < UInt32.size then some (Int32.ofNat n) else none
  | none => none

/-- Reads a floating point literal: single precision with a suffix `f`. -/
def floatLiteral (text : String) : Value :=
  let chars := text.toList
  match chars.getLast? with
  | some 'f' | some 'F' => .float (Decimal.ofText chars.dropLast).toBinary32
  | _ => .double (Decimal.ofText chars).toBinary64

namespace Parser

variable (inner : Grammar)

/-- `(e, ...)` after a name. -/
def callArguments : Parser (List Node × Token) := do
  let _ ← expectOpenParen
  let arguments ← do
    if ← isNext .closeParen then pure [] else commaSeparated inner.expression
  return (arguments, ← expectCloseParen)

/-- Type of a call.  Numbers and types of the arguments are checked later; this
is what a well-formed call yields. -/
def callType? (symbol : Symbol) (arguments : List ValueType) : Option ValueType :=
  match symbol.kind with
  | .function signature => some signature.result
  | .intrinsic f => some ((f.resolve arguments).getD .void)
  | _ => none

def call (callee : SymbolId) (name : Token) : Parser Node := do
  let (arguments, close) ← callArguments inner
  match callType? (← symbol callee) (arguments.map (·.type)) with
  | some type => makeNode (.call callee arguments) type (name.span.join close.span)
  | none => fail (.notCallable name.text) name.span

/-- A variable, a call or a cast written `type(e)`. -/
def identifierExpression (token : Token) : Parser Node := do
  match tokenType? token with
  | some type =>
    let _ ← expectOpenParen
    let operand ← inner.expression
    let close ← expectCloseParen
    makeCast operand type (token.span.join close.span)
  | none =>
    match (← get).symbols.lookup token.text with
    | none => fail (.undeclared token.text) token.span
    | some id =>
      if ← isNext .openParen then
        call inner id token
      else
        let symbol ← symbol id
        if symbol.isVariable then
          makeNode (.var id) symbol.type token.span
        else
          fail (.notVariable token.text) token.span

def literal (value : Value) (span : Span) : Parser Node := makeNode (.immediate value) value.type span

def primary : Parser Node := do
  let token ← expectNext "expression"
  match token.kind with
  | .integerLiteral =>
    match integerLiteral? token.text with
    | some n => literal (.int n) token.span
    | none => fail (.invalidLiteral token.text) token.span
  | .floatLiteral => literal (floatLiteral token.text) token.span
  | .booleanLiteral => literal (.bool (token.text = "true")) token.span
  | .openParen =>
    let expression ← inner.expression
    let _ ← expectCloseParen
    return expression
  | .identifier => identifierExpression inner token
  | _ => unexpected token "expression"

/-- One `++`, `--` or swizzle behind an expression. -/
def suffix (expression : Node) : Parser (Round Node Node) := do
  match ← peek with
  | none => return .done expression
  | some token =>
    match token.kind.suffixOp? with
    | some op =>
      let _ ← next
      return .more (← makeUnary op expression (expression.span.join token.span))
    | none =>
      if token.kind = .dot then
        let _ ← next
        let field ← expect .identifier "swizzle"
        return .more (← makeSwizzle expression field)
      else
        return .done expression

def postfixExpression : Parser Node := do iterate suffix (← primary inner)

/-- Whether `(type)` comes next, given that `(` does. -/
def isCastNext : Parser Bool := do
  if (← typeAt? 1).isSome then isAt 2 .closeParen else return false

def unary : Parser Node := do
  let token ← expectPeek "expression"
  match token.kind.prefixOp? with
  | some op =>
    let _ ← next
    let operand ← inner.unary
    makeUnary op operand (token.span.join operand.span)
  | none =>
    if token.kind = .plus then
      let _ ← next
      let operand ← inner.unary
      if operand.type.base.isNumeric then
        return operand
      else
        fail (.invalidOperand "+" operand.type) (token.span.join operand.span)
    else if token.kind = .openParen then
      if ← isCastNext then
        let _ ← next
        let (type, _) ← expectType
        let _ ← next
        let operand ← inner.unary
        makeCast operand type (token.span.join operand.span)
      else
        postfixExpression inner
    else
      postfixExpression inner

/-- One operator of at least some precedence and its right operand, in which
operators bind tighter. -/
def climb (least : Nat) (lhs : Node) : Parser (Round Node Node) := do
  match (← peek).bind (·.kind.binaryOp?) with
  | none => return .done lhs
  | some op =>
    if op.precedence < least then
      return .done lhs
    else
      let _ ← next
      let rhs ← inner.binary (op.precedence + 1)
      return .more (← makeBinary op lhs rhs)

def binary (least : Nat) : Parser Node := do iterate (climb inner least) (← unary inner)

/-- The value that `lhs op= rhs` stores, `(type)(lhs op rhs)`.  The target is a
variable, so a node with its form is a copy of it. -/
def compoundValue (op : BinaryOp) (lhs rhs : Node) (span : Span) : Parser Node := do
  let current ← makeNode lhs.form lhs.type lhs.span
  let value ← makeBinary op current rhs
  makeCast value lhs.type span

def expression : Parser Node := do
  let lhs ← binary inner 0
  match ← peek with
  | none => return lhs
  | some token =>
    if !token.kind.isAssignment then
      return lhs
    else
      let _ ← next
      let rhs ← inner.expression
      let span := lhs.span.join rhs.span
      checkAssignable lhs token.span
      let value ← match token.kind.compoundOp? with
        | none => coerce rhs lhs.type
        | some op => compoundValue op lhs rhs span
      makeNode (.binary .assign lhs value) lhs.type span

end Parser

end Shading
