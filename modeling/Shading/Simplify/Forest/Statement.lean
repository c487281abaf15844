import Shading.Simplify.Forest.DeadStore
import Shading.Simplify.Forest.Expression

/-!
# Simplifying numbered statements

Visitors for the statements of a forest.  Whether a block is the body of a
function is read off the node it belongs to.
-/

namespace Shading

namespace ForestPass

variable (env : SimplifyEnv) (visit : Context → NodeId → ForestPass Unit) (context : Context)

/-! ## Blocks -/

/-- Visits the statements of a block up to the first that cannot be reached.
Gives those kept and the symbols declared. -/
def visitStatements (kept : List NodeId) (declared : List SymbolId) :
    List NodeId → ForestPass (List NodeId × List SymbolId)
  | [] => return (kept, declared)
  | id :: rest => do
    if ← Simplify.isUnreachable then
      Simplify.countChange
      change fun forest => (id :: rest).foldl Forest.detach forest
      return (kept, declared)
    else
      visit context id
      let form := (← entry id).form
      let declared := match form with
        | .declare symbol _ => declared ++ [symbol]
        | _ => declared
      if env.options.fold && form.isEmpty then
        change (·.detach id)
        visitStatements kept declared rest
      else
        visitStatements (kept ++ [id]) declared rest

def visitBlock (id : NodeId) (statements : List NodeId) : ForestPass Unit := do
  let isFunctionBody := (← forest).isFunctionBody id
  let (kept, declared) ← visitStatements env visit context [] [] statements
  if kept.length ≠ statements.length then
    change (·.setForm id (.block kept))
  -- Locals declared here are gone once the block ends.
  if !isFunctionBody then Simplify.forgetAll declared

/-! ## Branches -/

/-- Condition and body of an arm. -/
def arm? (id : NodeId) : ForestPass (Option (Option NodeId × NodeId)) := do
  match (← entry id).form with
  | .arm condition? body => return some (condition?, body)
  | _ => return none

/-- Whether a node is an `else`, or an arm whose condition is the literal
`true`. -/
def isDefaultArm (id : NodeId) : ForestPass Bool := do
  match ← arm? id with
  | none => return false
  | some (none, _) => return true
  | some (some condition, _) => return (← literalCondition? condition) = some true

/-- Visits the conditions of a branch in order and decides which arms stay.
Conditions behind one whose value is not known only run sometimes. -/
def visitConditions (arms : List NodeId) (afterDynamic : Bool) : List NodeId → ForestPass (List NodeId)
  | [] => return arms
  | id :: rest => do
    match ← arm? id with
    | none => visitConditions arms afterDynamic rest
    | some (none, _) => return arms ++ [id]
    | some (some condition, body) =>
      visit { context with conditional := context.conditional || afterDynamic } condition
      match ← decidedCondition? env condition with
      | some false =>
        Simplify.countChange
        change (·.detach id)
        visitConditions arms afterDynamic rest
      | some true =>
        Simplify.countChange
        change fun forest => (forest.setForm id (.arm none body)).detach condition
        return arms ++ [id]
      | none => visitConditions (arms ++ [id]) true rest

/-- Visits the bodies of the arms and tells whether control never gets past
them, which only arms up to the first default decide. -/
def visitBodies (hasDefault allUnreachable : Bool) : List NodeId → ForestPass Bool
  | [] => return hasDefault && allUnreachable
  | id :: rest => do
    match ← arm? id with
    | none => visitBodies hasDefault allUnreachable rest
    | some (_, body) =>
      Simplify.setUnreachable false
      visit context.sometimes body
      if hasDefault then
        visitBodies true allUnreachable rest
      else
        let allUnreachable := allUnreachable && (← Simplify.isUnreachable)
        visitBodies (← isDefaultArm id) allUnreachable rest

/-- Visits the bodies of a branch that stays one. -/
def visitArms (arms : List NodeId) : ForestPass Unit := do
  Simplify.setUnreachable (← visitBodies visit context false true arms)

/-- Replaces a branch by the body of the one arm that always runs. -/
def visitOnlyArm (id arm : NodeId) : ForestPass Unit := do
  if let some (_, body) ← arm? arm then
    change (·.replace id body)
    visit context id

def visitBranch (id : NodeId) (arms : List NodeId) : ForestPass Unit := do
  let arms ← visitConditions env visit context [] false arms
  if !env.options.fold then
    visitArms visit context arms
  else
    let stay : ForestPass Unit := do
      change (·.setForm id (.branch arms))
      visitArms visit context arms
    match arms with
    | [] => change (·.makeEmpty id)
    | [arm] => if ← isDefaultArm arm then visitOnlyArm visit context id arm else stay
    | _ => stay

/-! ## Loops -/

/-- A loop that never runs leaves only its start. -/
def removeLoop (id : NodeId) (init? : Option NodeId) : ForestPass Unit := do
  Simplify.countChange
  match init? with
  | some init => change (·.setForm id (.block [init]))
  | none => change (·.makeEmpty id)

/-- Visits body and step of a loop, whose condition was visited. -/
def visitRound (id : NodeId) (kind : LoopKind) (init? condition? step? : Option NodeId)
    (body : NodeId) : ForestPass Unit := do
  Simplify.openLoop
  visit context.sometimes body
  let bodyUnreachable ← Simplify.isUnreachable
  if let some step := step? then
    Simplify.setUnreachable false
    visit context.sometimes step
  let exits ← Simplify.closeLoop
  let runsForever ← match condition? with
    | none => pure true
    | some condition => pure ((← literalCondition? condition) = some true)
  Simplify.setUnreachable (kind.neverEnds runsForever bodyUnreachable exits)
  if env.options.fold then
    change (·.setForm id (.loop kind init? condition? step? body))

def visitLoop (id : NodeId) (kind : LoopKind) (init? condition? step? : Option NodeId)
    (body : NodeId) : ForestPass Unit := do
  if let some init := init? then
    visit context init
  -- What the loop writes is unknown at the start of a round.
  (condition?.toList ++ step?.toList ++ [body]).forM fun part => do
    Simplify.forgetAll ((← forest).assigned part)
  let round (condition? : Option NodeId) : ForestPass Unit :=
    visitRound env visit context id kind init? condition? step? body
  match condition? with
  | none => round none
  | some condition =>
    visit context.sometimes condition
    match ← decidedCondition? env condition with
    | some false => if kind.isPretest then removeLoop id init? else round (some condition)
    | some true =>
      Simplify.countChange
      change (·.detach condition)
      round none
    | none => round (some condition)

/-! ## Returns -/

def visitReturn (id : NodeId) (value? : Option NodeId) : ForestPass Unit := do
  if let some function := context.function? then
    let symbol := env.symbols.get function
    symbol.checkReturn (← entry id).span value?.isSome
    if let some value := value? then
      visit context value
      coerce env value symbol.type
  Simplify.setUnreachable true

/-! ## Functions -/

def visitFunction (id : NodeId) (symbol : SymbolId) (body : NodeId) : ForestPass Unit := do
  let before ← get
  Simplify.openFunction
  visit ⟨some symbol, false⟩ body
  let endsUnreachable ← Simplify.isUnreachable
  Simplify.setUnreachable before.unreachable
  (env.symbols.get symbol).checkEnd (← entry id).span endsUnreachable
  let forest ← forest
  let (swept, removed) := if env.options.eliminate then forest.eliminateDeadStores body else (forest, 0)
  change fun _ => swept
  Simplify.closeFunction before.changes symbol endsUnreachable removed

end ForestPass

end Shading
