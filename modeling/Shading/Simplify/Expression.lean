import Shading.Simplify.Rule
import Shading.Tree.Usage

/-!
# Simplifying expressions

Visitors for the expressions of a syntax tree.  Operands are visited first,
then `Shading.Simplify.Rule` says what becomes of the operation.  Locals with a
known value are replaced by it, and arguments of calls are checked and
converted.
-/

namespace Shading

/-- Simplifies a tree; the state counts the node numbers taken. -/
abbrev TreePass := Simplify Nat

/-- Where a node stands. -/
inductive Place where
  /-- Directly in a function. -/
  | functionBody
  /-- Where its value is not used. -/
  | statement
  | nested
deriving DecidableEq

/-- What surrounds a node that is visited. -/
structure Surroundings where
  /-- The function whose returns are checked. -/
  function? : Option SymbolId
  /-- The node may run or not. -/
  conditional : Bool
  place : Place

namespace Surroundings

def nested (outside : Surroundings) : Surroundings := { outside with place := .nested }

/-- Inside something that only runs sometimes. -/
def sometimes (outside : Surroundings) : Surroundings :=
  { outside with conditional := true, place := .nested }

def statement (outside : Surroundings) : Surroundings := { outside with place := .statement }

end Surroundings

/-- Visits a node under a label, which differs from its own if the node was
moved. -/
abbrev Visit := Surroundings → Label → TreePass Node

/-- A child that is still to be visited. -/
structure Pending where
  node : Node
  visit : Visit

def Pending.run (child : Pending) (outside : Surroundings) : TreePass Node :=
  child.visit outside child.node.label

def Node.operand (node : Node) : Operand := ⟨node.type, node.immediate?⟩

namespace TreePass

def freshId : TreePass NodeId := do
  let state ← get
  set { state with nodes := state.nodes + 1 }
  return ⟨state.nodes⟩

variable (env : SimplifyEnv) (outside : Surroundings)

/-- Changes a binary operation as a rule says. -/
def carryOut (node lhs rhs : Node) : Reduction → TreePass Node
  | .keep => return node
  | .literal value => do
    Simplify.countChange
    return node.toImmediate value
  | .operand .left => do
    Simplify.countChange
    return node.replaceBy lhs
  | .operand .right => do
    Simplify.countChange
    return node.replaceBy rhs

/-- Converts a value implicitly. -/
def coerce (node : Node) (target : ValueType) : TreePass Node :=
  match coercion env.options.fold node.operand target with
  | .keep => return node
  | .literal value => return node.toImmediate value
  | .cast => return node.wrapInCast (← freshId) target
  | .refuse => Simplify.fail node.span (.typeMismatch target node.type)

/-! ## Variables -/

def visitVar (label : Label) (symbol : SymbolId) : TreePass Node := do
  let node : Node := .mk label (.var symbol)
  if !env.options.fold then
    return node
  else
    match ← Simplify.known? symbol with
    | some value =>
      Simplify.countChange
      return node.toImmediate value
    | none => return node

def visitDeclare (label : Label) (symbol : SymbolId) (initializer? : Option Pending) :
    TreePass Node := do
  match initializer? with
  | none =>
    Simplify.forget symbol
    return .mk label (.declare symbol none)
  | some initializer =>
    let value ← initializer.run outside.nested
    let value ← coerce env value (env.symbols.get symbol).type
    Simplify.recordDeclaration env symbol value.immediate?
    return .mk label (.declare symbol (some value))

/-! ## Unary operators -/

/-- `++x` on a known local becomes an assignment of its new value.  Postfix
forms are only changed where their own value is not used. -/
def visitStep (label : Label) (op : UnaryOp) (operand : Node) : TreePass Node := do
  let node : Node := .mk label (.unary op operand)
  match operand.form with
  | .var symbol =>
    let applies := env.options.fold && (op.isPreStep || outside.place = .statement)
    let current? ← Simplify.known? symbol
    match if applies then current?.bind (stepped? op) else none with
    | none =>
      Simplify.forget symbol
      return node
    | some updated =>
      Simplify.countChange
      let value := Node.create (← freshId) (.immediate updated) updated.type label.span
      Simplify.recordAssignment env outside.conditional symbol (some updated)
      return node.withForm (.binary .assign operand value)
  | _ => return node

/-- What `op operand` simplifies to. -/
def simplifyUnary (label : Label) (op : UnaryOp) (operand : Node) : TreePass Node := do
  let node : Node := .mk label (.unary op operand)
  match operand.form with
  | .unary inner innermost =>
    if op.cancels inner then
      Simplify.countChange
      return node.replaceBy innermost
    else
      return node
  | form =>
    match op.evaluate? form.immediate? label.type with
    | some result =>
      Simplify.countChange
      return node.toImmediate result
    | none => return node

def visitUnary (label : Label) (op : UnaryOp) (operand : Pending) : TreePass Node := do
  if op.isStep then
    visitStep env outside label op operand.node
  else
    let operand ← operand.run outside.nested
    if env.options.fold then simplifyUnary label op operand else return .mk label (.unary op operand)

/-! ## Binary operators -/

def visitOperation (label : Label) (op : BinaryOp) (lhs rhs : Pending) : TreePass Node := do
  let lhs ← lhs.run outside.nested
  let rhs ← rhs.run outside.nested
  match op.reduction env.options.fold label.type lhs.operand rhs.operand with
  | .ok reduction => carryOut (.mk label (.binary op lhs rhs)) lhs rhs reduction
  | .error fault => Simplify.fail label.span fault

/-- The right operand of `&&` and `||` only runs sometimes. -/
def visitLogical (label : Label) (op : BinaryOp) (lhs rhs : Pending) : TreePass Node := do
  let lhs ← lhs.run outside.nested
  let rhs ← rhs.run outside.sometimes
  let node : Node := .mk label (.binary op lhs rhs)
  if env.options.fold then
    carryOut node lhs rhs
      (logicalReduction op lhs.literalCondition? rhs.literalCondition? (lhs.isPure env.symbols))
  else
    return node

def visitAssign (label : Label) (target value : Pending) : TreePass Node := do
  let value ← value.run outside.nested
  match target.node.form with
  | .var symbol =>
    let value ← coerce env value (env.symbols.get symbol).type
    Simplify.recordAssignment env outside.conditional symbol value.immediate?
    return .mk label (.binary .assign target.node value)
  | _ => return .mk label (.binary .assign (← target.run outside.nested) value)

def visitBinary (label : Label) (op : BinaryOp) (lhs rhs : Pending) : TreePass Node :=
  match op with
  | .assign => visitAssign env outside label lhs rhs
  | .and | .or => visitLogical env outside label op lhs rhs
  | _ => visitOperation env outside label op lhs rhs

/-! ## Calls -/

def visitCall (label : Label) (callee : SymbolId) (arguments : List Pending) : TreePass Node := do
  let arguments ← arguments.mapM (·.run outside.nested)
  let symbol := env.symbols.get callee
  let types := arguments.map (·.type)
  match parameterTypes symbol types with
  | .error fault => Simplify.fail label.span fault
  | .ok parameters =>
    let arguments ← (arguments.zip parameters).mapM fun (argument, type) => coerce env argument type
    let label := { label with type := checkedCallType symbol types label.type }
    let node : Node := .mk label (.call callee arguments)
    match if env.options.fold then evaluateCall? symbol (arguments.map (·.immediate?)) else none with
    | some result =>
      Simplify.countChange
      return node.toImmediate result
    | none => return node

end TreePass

end Shading
