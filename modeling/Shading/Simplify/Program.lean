import Shading.Simplify.Statement

/-!
# Simplifying programs

`TreePass.visitForm` says how a node is visited, given how its children are;
folding it over the tree gives the pass.
-/

namespace Shading

/-- How to visit a node and, for an arm of a branch, its parts. -/
structure Visitor where
  visit : Visit
  parts? : Option (Option Pending × Pending)

namespace TreePass

variable (env : SimplifyEnv)

/-- A child together with how to visit it.  A node that was moved makes its
children its own first. -/
def pendingChildren (own slot : Label) (form : Form (Node × Visitor)) : Form (Pending × PendingArm) :=
  form.map fun (node, visitor) =>
    let node := if own.id = slot.id then node else node.withParent (some slot.id)
    (⟨node, visitor.visit⟩, ⟨node, visitor.parts?⟩)

def visitForm (own : Label) (form : Form (Node × Visitor)) (outside : Surroundings) (label : Label) :
    TreePass Node :=
  match pendingChildren own label form with
  | .program functions => return .mk label (.program (← functions.mapM (·.1.run outside.nested)))
  | .function symbol parameters body => visitFunction env label symbol parameters body.1
  | .block statements => visitBlock env outside label (statements.map Prod.fst)
  | .branch arms => visitBranch env outside label (arms.map Prod.snd)
  | .arm condition? body => do
    let condition? ← condition?.mapM (·.1.run outside.nested)
    return .mk label (.arm condition? (← body.1.run outside.nested))
  | .loop kind init? condition? step? body =>
    visitLoop env outside label kind (init?.map Prod.fst) (condition?.map Prod.fst)
      (step?.map Prod.fst) body.1
  | .breakLoop => do
    Simplify.breakLoop label.span
    return .mk label .breakLoop
  | .continueLoop => do
    Simplify.continueLoop label.span
    return .mk label .continueLoop
  | .returnValue value? => visitReturn env outside label (value?.map Prod.fst)
  | .declare symbol initializer? => visitDeclare env outside label symbol (initializer?.map Prod.fst)
  | .swizzle object field => return .mk label (.swizzle (← object.1.run outside.nested) field)
  | .var symbol => visitVar env label symbol
  | .immediate value => return .mk label (.immediate value)
  | .unary op operand => visitUnary env outside label op operand.1
  | .binary op lhs rhs => visitBinary env outside label op lhs.1 rhs.1
  | .call callee arguments => visitCall env outside label callee (arguments.map Prod.fst)

def visitorForm (own : Label) (form : Form (Node × Visitor)) : Visitor where
  visit := visitForm env own form
  parts? := match form with
    | .arm condition? body =>
      let pending (child : Node × Visitor) : Pending := ⟨child.1, child.2.visit⟩
      some (condition?.map pending, pending body)
    | _ => none

/-- Visits a node where it stands. -/
def visit (node : Node) (outside : Surroundings) : TreePass Node :=
  (node.fold (visitorForm env)).visit outside node.label

end TreePass

/-- A simplified program and what the pass learned about its functions. -/
structure Simplified where
  program : Program
  summaries : List FunctionSummary

/-- Checks and simplifies every function.  The first error stops the pass. -/
def Program.simplify (program : Program) (options : Options) : Except SimplifyError Simplified :=
  let env : SimplifyEnv := ⟨options, program.symbols⟩
  let (outcome, state) :=
    (TreePass.visit env program.root ⟨none, false, .nested⟩).run.run (.start program.nodeCount)
  outcome.map fun root => ⟨{ program with root, nodeCount := state.nodes }, state.summaries⟩

/-- Simplifies and reports the error that stops the pass, where it stands. -/
def Program.simplifyReporting (program : Program) (options : Options) : Reporting SimplifyError Simplified :=
  Reporting.ofResult (fun error => ⟨error.fault.code, some error.span, error.fault.message⟩)
    (program.simplify options)

/-- Removes the dead stores of every function, without any other change. -/
def Program.sweepFunctions (program : Program) : Program × List Nat :=
  let sweepBody (function : Node) : Node × Nat :=
    match function.form with
    | .function symbol parameters body =>
      let swept := eliminateDeadStores program.symbols body
      (.mk function.label (.function symbol parameters swept.node), swept.removed)
    | _ => (function, 0)
  let swept := program.functions.map sweepBody
  ({ program with root := .mk program.root.label (.program (swept.map Prod.fst)) }, swept.map Prod.snd)

end Shading
