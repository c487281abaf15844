import Shading.Tree.Usage

/-!
# Dead stores

A sweep over a function body makes three changes: an assignment to a local
that is never read becomes its value, statements without effect are dropped,
and so are declarations of locals that nothing else mentions.  Sweeps are
repeated until one changes nothing; each change makes the tree smaller.
-/

namespace Shading

section

variable (symbols : SymbolTable) (uses : List Use)

/-- Whether stores to a symbol are never read. -/
def isDeadStore (symbol : SymbolId) : Bool :=
  (symbols.get symbol).isLocal && countReads uses symbol = 0

/-- Whether only its declaration mentions a symbol. -/
def isUnmentioned (symbol : SymbolId) : Bool :=
  countReads uses symbol = 0 && countWrites uses symbol = 1

end

/-- A tree after a sweep and the number of changes. -/
structure Sweep where
  node : Node
  removed : Nat

namespace Sweep

/-- Nothing changed. -/
def unchanged (node : Node) : Sweep := ⟨node, 0⟩

/-- A form of swept children in the place of a node. -/
def ofForm (label : Label) (form : Form Sweep) : Sweep :=
  ⟨.mk label (form.map (·.node)), form.sum (·.removed)⟩

end Sweep

section

variable (symbols : SymbolTable) (uses : List Use)

/-! ## Assignments -/

/-- Whether a store to `target` is never read. -/
def isDeadTarget (target : Node) : Bool :=
  match target.form with
  | .var symbol => isDeadStore symbols uses symbol
  | _ => false

/-- A node whose descendants were collapsed: without and with a change to the
node itself. -/
structure Collapse where
  inside : Sweep
  whole : Sweep

def collapseForm (label : Label) (form : Form (Node × Collapse)) : Collapse :=
  let inside := Sweep.ofForm label (form.map (·.2.whole))
  match form with
  | .binary .assign (target, _) (_, value) =>
    if isDeadTarget symbols uses target then
      ⟨inside, inside.node.replaceBy value.inside.node, value.inside.removed + 1⟩
    else
      ⟨inside, inside⟩
  | _ => ⟨inside, inside⟩

/-- Turns assignments to locals that are never read into their values. -/
def collapseAssignments (node : Node) : Sweep := (node.fold (collapseForm symbols uses)).whole

/-! ## Statements -/

def isDeadStatement (node : Node) : Bool :=
  match node.form with
  | .declare symbol initializer? => isUnmentioned uses symbol && initializer?.all (·.isPure symbols)
  | form => form.isExpression && node.isPure symbols

def pruneForm (label : Label) (form : Form (Node × Sweep)) : Sweep :=
  let inside := Sweep.ofForm label (form.map Prod.snd)
  match form with
  | .block statements =>
    let kept := statements.filter fun (node, _) => !isDeadStatement symbols uses node
    if kept.length = statements.length then
      inside
    else
      ⟨inside.node.withForm (.block (kept.map (·.2.node))),
        inside.removed + (statements.length - kept.length)⟩
  | .loop kind init? condition? (some (step, _)) body =>
    if step.isPure symbols then
      let form := .loop kind (init?.map (·.2.node)) (condition?.map (·.2.node)) none body.2.node
      ⟨inside.node.withForm form, inside.removed + 1⟩
    else
      inside
  | _ => inside

/-- Drops statements and loop steps without effect. -/
def pruneStatements (node : Node) : Sweep := node.fold (pruneForm symbols uses)

end

/-! ## Sweeping -/

def sweep (symbols : SymbolTable) (node : Node) : Sweep :=
  let uses := node.uses .read
  let collapsed := collapseAssignments symbols uses node
  let pruned := pruneStatements symbols uses collapsed.node
  ⟨pruned.node, collapsed.removed + pruned.removed⟩

/-- Sweeps until nothing changes, at most `bound` times. -/
def sweepUpTo (symbols : SymbolTable) : (bound : Nat) → Node → Sweep
  | 0, node => .unchanged node
  | bound + 1, node =>
    let first := sweep symbols node
    if first.removed = 0 then
      .unchanged node
    else
      let rest := sweepUpTo symbols bound first.node
      ⟨rest.node, first.removed + rest.removed⟩

/-- Removes the dead stores below a node. -/
def eliminateDeadStores (symbols : SymbolTable) (node : Node) : Sweep :=
  sweepUpTo symbols node.size node

end Shading
