import Shading.Simplify.Forest.Statement

/-!
# Simplifying forests

`ForestPass.visitForm` says how a node is visited, given how others are.
`Forest.simplify` visits the root of the program.
-/

namespace Shading

namespace ForestPass

variable (env : SimplifyEnv)

def visitForm (visit : Context → NodeId → ForestPass Unit) (context : Context) (id : NodeId) :
    Form NodeId → ForestPass Unit
  | .program functions => functions.forM (visit context)
  | .function symbol _ body => visitFunction env visit id symbol body
  | .block statements => visitBlock env visit context id statements
  | .branch arms => visitBranch env visit context id arms
  | .arm condition? body => do
    if let some condition := condition? then
      visit context condition
    visit context body
  | .loop kind init? condition? step? body => visitLoop env visit context id kind init? condition? step? body
  | .breakLoop => do Simplify.breakLoop (← entry id).span
  | .continueLoop => do Simplify.continueLoop (← entry id).span
  | .returnValue value? => visitReturn env visit context id value?
  | .declare symbol initializer? => visitDeclare env visit context symbol initializer?
  | .swizzle object _ => visit context object
  | .var symbol => visitVar env id symbol
  | .immediate _ => return
  | .unary op operand => visitUnary env visit context id op operand
  | .binary op lhs rhs => visitBinary env visit context id op lhs rhs
  | .call callee arguments => visitCall env visit context id callee arguments

/-- Visits a node and those below it, at most `depth` levels deep. -/
def visitUpTo : (depth : Nat) → Context → NodeId → ForestPass Unit
  | 0, _, _ => return
  | depth + 1, context, id => do
    visitForm env (visitUpTo depth) context id (← entry id).form

end ForestPass

/-- Number of levels that are visited in a forest.  Without a cycle no path is
longer than the number of nodes.  Each conversion that the pass puts in makes a
path longer by one, and there is at most one for each node of the tree below
the root, where a shared node counts once for each way to reach it. -/
def Forest.visitDepth (forest : Forest) : Nat :=
  forest.size + 2 * (forest.node? root).elim forest.size Node.size

/-- A forest after a pass, also one that an error stopped, and what the pass
learned about its functions. -/
structure SimplifiedForest where
  result : Except SimplifyError (List FunctionSummary)
  forest : Forest

/-- The error, if there is one, is reported. -/
def SimplifiedForest.reported (simplified : SimplifiedForest) : List Diagnostic :=
  (Reporting.ofResult SimplifyError.diagnostic simplified.result).outcome.2

/-- Checks and simplifies every function of the program.  The first error stops
the pass; the forest is then as far changed as the pass got. -/
def Forest.simplify (forest : Forest) (options : Options) : SimplifiedForest :=
  let env : SimplifyEnv := ⟨options, forest.symbols⟩
  let (outcome, state) :=
    (ForestPass.visitUpTo env forest.visitDepth ⟨none, false⟩ Forest.root).run.run (.start forest)
  ⟨outcome.map fun _ => state.summaries, state.nodes⟩

end Shading
