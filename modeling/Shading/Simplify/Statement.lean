import Shading.Simplify.DeadStore
import Shading.Simplify.Expression

/-!
# Simplifying statements

Visitors for the statements of a syntax tree.  Statements that control never
reaches are dropped, arms and loops that never run are removed, and a branch
with one arm that always runs becomes the body of that arm.  What is known
about a local is forgotten where control flow makes it uncertain.
-/

namespace Shading

namespace TreePass

variable (env : SimplifyEnv) (outside : Surroundings)

/-! ## Blocks -/

/-- Visits the statements of a block up to the first that cannot be reached.
Gives those kept and the symbols declared. -/
def visitStatements (kept : List Node) (declared : List SymbolId) :
    List Pending → TreePass (List Node × List SymbolId)
  | [] => return (kept, declared)
  | child :: rest => do
    if ← Simplify.isUnreachable then
      Simplify.countChange
      return (kept, declared)
    else
      let node ← child.run outside.statement
      let declared := match node.form with
        | .declare symbol _ => declared ++ [symbol]
        | _ => declared
      if env.options.fold && node.form.isEmpty then
        visitStatements kept declared rest
      else
        visitStatements (kept ++ [node]) declared rest

def visitBlock (label : Label) (statements : List Pending) : TreePass Node := do
  let (kept, declared) ← visitStatements env outside [] [] statements
  -- Locals declared here are gone once the block ends.
  if outside.place ≠ .functionBody then Simplify.forgetAll declared
  return .mk label (.block kept)

/-! ## Branches -/

/-- An arm of a branch whose condition was visited and whose body was not. -/
structure OpenArm where
  label : Label
  condition? : Option Node
  body : Pending

namespace OpenArm

def close (arm : OpenArm) (body : Node) : Node := .mk arm.label (.arm arm.condition? body)

/-- An `else`, or an arm whose condition is the literal `true`. -/
def isDefault (arm : OpenArm) : Bool :=
  arm.condition?.all fun condition => condition.literalCondition? = some true

end OpenArm

/-- A child of a branch that is still to be visited; for an arm, its condition
and body. -/
structure PendingArm where
  node : Node
  parts? : Option (Option Pending × Pending)

/-- A child of a branch: an arm that is still open, or a node that is not
visited. -/
inductive BranchItem where
  | arm (arm : OpenArm)
  | other (node : Node)

def BranchItem.arm? : BranchItem → Option OpenArm
  | .arm inside => some inside
  | .other _ => none

/-- Visits the conditions of a branch in order and decides which arms stay.
Conditions behind one whose value is not known only run sometimes. -/
def visitConditions (items : List BranchItem) (afterDynamic : Bool) :
    List PendingArm → TreePass (List BranchItem)
  | [] => return items
  | ⟨node, none⟩ :: rest => visitConditions (items ++ [.other node]) afterDynamic rest
  | ⟨node, some (none, body)⟩ :: rest =>
    return items ++ [.arm ⟨node.label, none, body⟩] ++ rest.map (.other ·.node)
  | ⟨node, some (some condition, body)⟩ :: rest => do
    let surroundings :=
      { outside.nested with conditional := outside.conditional || afterDynamic }
    let condition ← condition.run surroundings
    match if env.options.fold then condition.literalCondition? else none with
    | some false =>
      Simplify.countChange
      visitConditions items afterDynamic rest
    | some true =>
      Simplify.countChange
      return items ++ [.arm ⟨node.label, none, body⟩] ++ rest.map (.other ·.node)
    | none => visitConditions (items ++ [.arm ⟨node.label, some condition, body⟩]) true rest

/-- Visits the bodies of the arms.  Gives the children of the branch and
whether control never gets past it, which only arms up to the first default
decide. -/
def visitBodies (done : List Node) (hasDefault allUnreachable : Bool) :
    List BranchItem → TreePass (List Node × Bool)
  | [] => return (done, hasDefault && allUnreachable)
  | .other node :: rest => visitBodies (done ++ [node]) hasDefault allUnreachable rest
  | .arm arm :: rest => do
    Simplify.setUnreachable false
    let done := done ++ [arm.close (← arm.body.run outside.sometimes)]
    if hasDefault then
      visitBodies done true allUnreachable rest
    else
      visitBodies done arm.isDefault (allUnreachable && (← Simplify.isUnreachable)) rest

/-- Visits the bodies of a branch that stays one. -/
def visitArms (label : Label) (items : List BranchItem) : TreePass Node := do
  let (nodes, unreachable) ← visitBodies outside [] false true items
  Simplify.setUnreachable unreachable
  return .mk label (.branch nodes)

/-- Replaces a branch by the body of the one arm that always runs. -/
def visitOnlyArm (label : Label) (body : Pending) : TreePass Node :=
  body.visit outside { label with type := body.node.type, span := body.node.span }

def visitBranch (label : Label) (arms : List PendingArm) : TreePass Node := do
  let items ← visitConditions env outside [] false arms
  if !env.options.fold then
    visitArms outside label items
  else
    match items.filterMap (·.arm?) with
    | [] => return (.mk label (.branch []) : Node).toEmpty
    | [arm] => if arm.isDefault then visitOnlyArm outside label arm.body else visitArms outside label [.arm arm]
    | arms => visitArms outside label (arms.map .arm)

/-! ## Loops -/

/-- The parts of a loop. -/
structure LoopParts where
  kind : LoopKind
  init? : Option Node
  condition? : Option Pending
  step? : Option Pending
  body : Pending

/-- Symbols written in each round of the loop. -/
def LoopParts.assigned (parts : LoopParts) : List SymbolId :=
  let inside := parts.condition?.toList ++ parts.step?.toList ++ [parts.body]
  inside.flatMap (·.node.assigned .read)

/-- A loop that never runs leaves only its start. -/
def removeLoop (label : Label) (init? : Option Node) : TreePass Node := do
  Simplify.countChange
  let node : Node := .mk label .empty
  match init? with
  | some init => return node.withForm (.block [init])
  | none => return node.toEmpty

/-- Visits body and step of a loop, whose condition was visited. -/
def visitRound (label : Label) (parts : LoopParts) (condition? : Option Node) : TreePass Node := do
  Simplify.openLoop
  let body ← parts.body.run outside.sometimes
  let bodyUnreachable ← Simplify.isUnreachable
  let step? ← parts.step?.mapM fun step => do
    Simplify.setUnreachable false
    step.run { outside.sometimes with place := .statement }
  let exits ← Simplify.closeLoop
  let runsForever := condition?.all fun condition => condition.literalCondition? = some true
  Simplify.setUnreachable (parts.kind.neverEnds runsForever bodyUnreachable exits)
  return .mk label (.loop parts.kind parts.init? condition? step? body)

def visitLoop (label : Label) (kind : LoopKind) (init? condition? step? : Option Pending)
    (body : Pending) : TreePass Node := do
  let init? ← init?.mapM (·.run outside.nested)
  let parts : LoopParts := ⟨kind, init?, condition?, step?, body⟩
  -- What the loop writes is unknown at the start of a round.
  Simplify.forgetAll parts.assigned
  match condition? with
  | none => visitRound outside label parts none
  | some condition =>
    let condition ← condition.run outside.sometimes
    match if env.options.fold then condition.literalCondition? else none with
    | some false =>
      if kind.isPretest then removeLoop label init? else visitRound outside label parts (some condition)
    | some true =>
      Simplify.countChange
      visitRound outside label parts none
    | none => visitRound outside label parts (some condition)

/-! ## Returns -/

def visitReturn (label : Label) (value? : Option Pending) : TreePass Node := do
  match outside.function? with
  | none =>
    Simplify.setUnreachable true
    return .mk label (.returnValue (value?.map (·.node)))
  | some function =>
    let symbol := env.symbols.get function
    symbol.checkReturn label.span value?.isSome
    let value? ← value?.mapM fun value => do coerce env (← value.run outside.nested) symbol.type
    Simplify.setUnreachable true
    return .mk label (.returnValue value?)

/-! ## Functions -/

def visitFunction (label : Label) (id : SymbolId) (parameters : List SymbolId) (body : Pending) :
    TreePass Node := do
  let before ← get
  Simplify.openFunction
  let body ← body.run ⟨some id, false, .functionBody⟩
  let endsUnreachable ← Simplify.isUnreachable
  Simplify.setUnreachable before.unreachable
  (env.symbols.get id).checkEnd label.span endsUnreachable
  let swept := if env.options.eliminate then eliminateDeadStores env.symbols body else .unchanged body
  Simplify.closeFunction before.changes id endsUnreachable swept.removed
  return .mk label (.function id parameters swept.node)

end TreePass

end Shading
