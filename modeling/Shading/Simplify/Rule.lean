import Shading.Fold
import Shading.Intrinsic
import Shading.Simplify.State
import Shading.Tree.Form

/-!
# Simplifying: rules

What becomes of an operation, given what is known about its operands.  The
rules only decide; the passes carry the decision out.

* `UnaryOp.evaluate?`, `BinaryOp.reduction`, `logicalReduction`: operations on
  literals are computed and operands that do not change the result are dropped.
  Division of an integer by a literal zero is an error, folding or not.
* `coercion`: how a value is converted implicitly.
* `parameterTypes`, `evaluateCall?`: calls.
-/

namespace Shading

/-- What a rule sees of an operand. -/
structure Operand where
  type : ValueType
  /-- The value of a literal. -/
  value? : Option Value

/-- One of two operands. -/
inductive Side where
  | left
  | right

/-- What becomes of an operation. -/
inductive Reduction where
  | keep
  | literal (value : Value)
  /-- The operation equals one of its operands. -/
  | operand (side : Side)

/-! ## Unary operators -/

/-- The value that `++` or `--` leaves behind. -/
def stepped? (op : UnaryOp) (value : Value) : Option Value :=
  match Value.one? value.base with
  | some one => ((if op.isIncrement then BinaryOp.add else .sub).fold value one).toOption
  | none => none

/-- Whether `op` undoes the operator of its operand. -/
def UnaryOp.cancels (op inner : UnaryOp) : Bool := inner = op && op.isInvolution

/-- The value of `op` on a literal, as a value of `type`. -/
def UnaryOp.evaluate? (op : UnaryOp) (value? : Option Value) (type : ValueType) : Option Value :=
  value?.bind fun value => (op.fold value type).toOption

/-! ## Binary operators -/

/-- The operand that equals the result because the other one is neutral. -/
def neutralSide? (op : BinaryOp) (type : ValueType) (a? b? : Option Value) : Option Side :=
  let isInt := type.isScalar .int
  let zeroLeft := a?.any (·.isZero)
  let zeroRight := b?.any (·.isZero)
  let oneLeft := a?.any (·.isOne)
  let oneRight := b?.any (·.isOne)
  match op with
  | .add | .bitOr | .bitXor =>
    if isInt && zeroRight then some .left else if isInt && zeroLeft then some .right else none
  | .sub => if b?.any (·.isPositiveZero) then some .left else none
  | .mul => if oneRight then some .left else if oneLeft then some .right else none
  | .div => if oneRight then some .left else none
  | .shiftLeft | .shiftRight => if zeroRight then some .left else none
  | _ => none

/-- Drops a neutral operand, such as zero in a sum of integers, if the other
one has the type of the operation. -/
def dropNeutral (op : BinaryOp) (type : ValueType) (left right : Operand) : Reduction :=
  match neutralSide? op type left.value? right.value? with
  | some .left => if left.type = type then .operand .left else .keep
  | some .right => if right.type = type then .operand .right else .keep
  | none => .keep

/-- What becomes of an operation without short circuit. -/
def BinaryOp.reduction (op : BinaryOp) (fold : Bool) (type : ValueType) (left right : Operand) :
    Except SimplifyFault Reduction :=
  if op.isDivision && right.value? = some (.int 0) then
    .error .divisionByZero
  else if !fold then
    .ok .keep
  else
    match left.value?, right.value? with
    | some a, some b =>
      match op.fold a b with
      | .ok result => .ok (.literal result)
      | .error .divisionByZero => .error .divisionByZero
      | .error .unsupported => .ok .keep
    | _, _ => .ok (dropNeutral op type left right)

/-- What becomes of `&&` and `||`, given the operands that are literal and
whether the left one has no effect. -/
def logicalReduction (op : BinaryOp) (a? b? : Option Bool) (pureLeft : Bool) : Reduction :=
  -- The value that decides the result on its own.
  let decisive := op ≠ .and
  match a?, b? with
  | some a, some b => .literal (.bool (if op = .and then a && b else a || b))
  | some a, none => if a = decisive then .literal (.bool a) else .operand .right
  | none, some b =>
    if b ≠ decisive then .operand .left else if pureLeft then .literal (.bool b) else .keep
  | none, none => .keep

/-! ## Conversions -/

/-- How a value is converted implicitly. -/
inductive Coercion where
  | keep
  /-- A literal is converted at once. -/
  | literal (value : Value)
  | cast
  | refuse

def coercion (fold : Bool) (operand : Operand) (target : ValueType) : Coercion :=
  if operand.type = target then .keep
  else if !operand.type.convertsTo target then .refuse
  else
    match if fold && !target.isVector then operand.value?.bind (·.cast target.base) else none with
    | some value => .literal value
    | none => .cast

/-! ## Calls -/

/-- Types that the arguments of a call are converted to. -/
def parameterTypes (symbol : Symbol) (arguments : List ValueType) :
    Except SimplifyFault (List ValueType) :=
  match symbol.kind with
  | .function signature =>
    if signature.parameters.length = arguments.length then .ok signature.parameters
    else .error (.arityMismatch symbol.name signature.parameters.length arguments.length)
  | .intrinsic f =>
    if f.arity ≠ arguments.length then
      .error (.arityMismatch symbol.name f.arity arguments.length)
    else
      match f.resolve arguments with
      | some type => .ok (arguments.map fun _ => type)
      | none => .error (.invalidArguments symbol.name arguments)
  | _ => .error (.notCallable symbol.name)

/-- Type of a call with checked arguments; `type` is what it was before. -/
def checkedCallType (symbol : Symbol) (arguments : List ValueType) (type : ValueType) : ValueType :=
  match symbol.kind with
  | .intrinsic f => (f.resolve arguments).getD type
  | _ => type

/-- The value of an intrinsic of literals. -/
def evaluateCall? (symbol : Symbol) (arguments : List (Option Value)) : Option Value :=
  match symbol.kind with
  | .intrinsic f => (arguments.mapM fun value? => value?).bind f.evaluate
  | _ => none

/-! ## Statements -/

/-- Whether control never gets past a loop.  `runsForever` says that its
condition is always true. -/
def LoopKind.neverEnds (kind : LoopKind) (runsForever bodyUnreachable : Bool) (exits : LoopExits) : Bool :=
  (runsForever && !exits.breaks) ||
    (kind = .doWhile && bodyUnreachable && !exits.breaks && !exits.continues)

/-- A `return` has a value if and only if its function has one. -/
def Symbol.checkReturn {σ : Type} (function : Symbol) (span : Span) (hasValue : Bool) : Simplify σ Unit :=
  match function.type.isVoid, hasValue with
  | true, true => Simplify.fail span (.unexpectedReturnValue function.name)
  | false, false => Simplify.fail span (.missingReturnValue function.name function.type)
  | _, _ => return

/-- Control must not fall off the end of a function that has a value. -/
def Symbol.checkEnd {σ : Type} (function : Symbol) (span : Span) (endsUnreachable : Bool) :
    Simplify σ Unit :=
  if !function.type.isVoid && !endsUnreachable then
    Simplify.fail span (.missingReturn function.name)
  else
    return

end Shading
