import Shading.Simplify.Rule
import Shading.Tree.Forest

/-!
# Simplifying numbered expressions

Visitors for the expressions of a forest.  Each changes its node in place, so
that a change to a shared node shows wherever it is used and is made once, and
an error leaves the nodes as they are at that moment.
-/

namespace Shading

/-- Simplifies a forest, which the state holds. -/
abbrev ForestPass := Simplify Forest

/-- What surrounds a numbered node that is visited. -/
structure Context where
  /-- The function whose returns are checked. -/
  function? : Option SymbolId
  /-- The node may run or not. -/
  conditional : Bool

/-- Inside something that only runs sometimes. -/
def Context.sometimes (context : Context) : Context := { context with conditional := true }

def Entry.operand (entry : Entry) : Operand := ⟨entry.type, entry.form.immediate?⟩

namespace ForestPass

def forest : ForestPass Forest := return (← get).nodes

def change (f : Forest → Forest) : ForestPass Unit :=
  modify fun state => { state with nodes := f state.nodes }

def entry (id : NodeId) : ForestPass Entry := return (← forest).entry id

/-- Truth value of a literal condition. -/
def literalCondition? (id : NodeId) : ForestPass (Option Bool) :=
  return (← entry id).form.literalCondition?

/-- Truth value of a literal condition, if literals are made use of. -/
def decidedCondition? (env : SimplifyEnv) (id : NodeId) : ForestPass (Option Bool) := do
  let truth? ← literalCondition? id
  return if env.options.fold then truth? else none

/-- Fails at a node. -/
def failAt {α : Type} (id : NodeId) (fault : SimplifyFault) : ForestPass α := do
  Simplify.fail (← entry id).span fault

variable (env : SimplifyEnv)

/-- Changes a binary operation as a rule says. -/
def carryOut (id lhs rhs : NodeId) : Reduction → ForestPass Unit
  | .keep => return
  | .literal value => do
    Simplify.countChange
    change (·.replaceByImmediate id value)
  | .operand .left => do
    Simplify.countChange
    change (·.replace id lhs)
  | .operand .right => do
    Simplify.countChange
    change (·.replace id rhs)

/-- Converts a value implicitly. -/
def coerce (id : NodeId) (target : ValueType) : ForestPass Unit := do
  let found ← entry id
  match coercion env.options.fold found.operand target with
  | .keep => return
  | .literal value => change (·.replaceByImmediate id value)
  | .cast => change (·.wrapInCast id target)
  | .refuse => failAt id (.typeMismatch target found.type)

variable (visit : Context → NodeId → ForestPass Unit) (context : Context)

/-! ## Variables -/

def visitVar (id : NodeId) (symbol : SymbolId) : ForestPass Unit := do
  if env.options.fold then
    if let some value ← Simplify.known? symbol then
      Simplify.countChange
      change (·.replaceByImmediate id value)

def visitDeclare (symbol : SymbolId) (initializer? : Option NodeId) : ForestPass Unit := do
  match initializer? with
  | none => Simplify.forget symbol
  | some initializer =>
    visit context initializer
    coerce env initializer (env.symbols.get symbol).type
    Simplify.recordDeclaration env symbol (← entry initializer).form.immediate?

/-! ## Unary operators -/

/-- `++x` on a known local becomes an assignment of its new value.  Postfix
forms are only changed where their own value is not used. -/
def visitStep (id : NodeId) (op : UnaryOp) (operand : NodeId) : ForestPass Unit := do
  if let .var symbol := (← entry operand).form then
    let applies := env.options.fold && (op.isPreStep || (← forest).isStatement id)
    let current? ← Simplify.known? symbol
    match if applies then current?.bind (stepped? op) else none with
    | none => Simplify.forget symbol
    | some updated =>
      Simplify.countChange
      change fun forest =>
        let (value, forest) := forest.add (.immediate updated) updated.type (forest.entry id).span
        forest.setForm id (.binary .assign operand value)
      Simplify.recordAssignment env context.conditional symbol (some updated)

def simplifyUnary (id : NodeId) (op : UnaryOp) (operand : NodeId) : ForestPass Unit := do
  match (← entry operand).form with
  | .unary inner innermost =>
    if op.cancels inner then
      Simplify.countChange
      change (·.replace id innermost)
  | form =>
    if let some result := op.evaluate? form.immediate? (← entry id).type then
      Simplify.countChange
      change (·.replaceByImmediate id result)

def visitUnary (id : NodeId) (op : UnaryOp) (operand : NodeId) : ForestPass Unit := do
  if op.isStep then
    visitStep env context id op operand
  else
    visit context operand
    if env.options.fold then simplifyUnary id op operand

/-! ## Binary operators -/

def visitOperation (id : NodeId) (op : BinaryOp) (lhs rhs : NodeId) : ForestPass Unit := do
  visit context lhs
  visit context rhs
  let reduction := op.reduction env.options.fold (← entry id).type (← entry lhs).operand (← entry rhs).operand
  match reduction with
  | .ok reduction => carryOut id lhs rhs reduction
  | .error fault => failAt id fault

/-- The right operand of `&&` and `||` only runs sometimes. -/
def visitLogical (id : NodeId) (op : BinaryOp) (lhs rhs : NodeId) : ForestPass Unit := do
  visit context lhs
  visit context.sometimes rhs
  if env.options.fold then
    carryOut id lhs rhs (logicalReduction op (← literalCondition? lhs) (← literalCondition? rhs)
      ((← forest).isPure lhs))

def visitAssign (target value : NodeId) : ForestPass Unit := do
  visit context value
  match (← entry target).form with
  | .var symbol =>
    coerce env value (env.symbols.get symbol).type
    Simplify.recordAssignment env context.conditional symbol (← entry value).form.immediate?
  | _ => visit context target

def visitBinary (id : NodeId) (op : BinaryOp) (lhs rhs : NodeId) : ForestPass Unit :=
  match op with
  | .assign => visitAssign env visit context lhs rhs
  | .and | .or => visitLogical env visit context id op lhs rhs
  | _ => visitOperation env visit context id op lhs rhs

/-! ## Calls -/

def visitCall (id : NodeId) (callee : SymbolId) (arguments : List NodeId) : ForestPass Unit := do
  arguments.forM (visit context)
  let symbol := env.symbols.get callee
  let types ← arguments.mapM fun argument => return (← entry argument).type
  match parameterTypes symbol types with
  | .error fault => failAt id fault
  | .ok parameters =>
    change fun forest => forest.setType id (checkedCallType symbol types (forest.entry id).type)
    (arguments.zip parameters).forM fun (argument, type) => coerce env argument type
    if env.options.fold then
      let values ← arguments.mapM fun argument => return (← entry argument).form.immediate?
      if let some result := evaluateCall? symbol values then
        Simplify.countChange
        change (·.replaceByImmediate id result)

end ForestPass

end Shading
