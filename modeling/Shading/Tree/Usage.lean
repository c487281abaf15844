import Shading.Tree.Node

/-!
# How a tree uses its symbols

`Node.uses` lists the uses of variables below a node in the order of
evaluation.  A declaration writes its symbol after its initializer, an
assignment writes its target, `++` and `--` read and write theirs, and all
other uses read.
-/

namespace Shading

inductive Usage where
  | read
  | write
  | readWrite
deriving DecidableEq

namespace Usage

def reads : Usage → Bool
  | .read | .readWrite => true
  | .write => false

def writes : Usage → Bool
  | .write | .readWrite => true
  | .read => false

end Usage

structure Use where
  symbol : SymbolId
  usage : Usage
  span : Span
deriving DecidableEq

def countReads (uses : List Use) (symbol : SymbolId) : Nat :=
  uses.countP fun use => use.symbol = symbol && use.usage.reads

/-- Number of writes; a declaration counts as one. -/
def countWrites (uses : List Use) (symbol : SymbolId) : Nat :=
  uses.countP fun use => use.symbol = symbol && use.usage.writes

/-- Symbols written, in the order of their first write. -/
def assignedSymbols (uses : List Use) : List SymbolId :=
  ((uses.filter (·.usage.writes)).map (·.symbol)).eraseDups

/-- Whether a form is an expression without an effect of its own. -/
def Form.isPureOperation {α : Type} (symbols : SymbolTable) : Form α → Bool
  | .unary op _ => !op.isStep
  | .binary op _ _ => op ≠ .assign
  | .call callee _ => !(symbols.get callee).isFunction
  | .var _ | .immediate _ | .swizzle .. => true
  | _ => false

namespace Node

/-- Uses of a form, given those of its children. -/
def formUses (label : Label) (form : Form (Node × (Usage → List Use))) (usage : Usage) : List Use :=
  match form with
  | .var symbol => [⟨symbol, usage, label.span⟩]
  | .declare symbol initializer? =>
    (initializer?.toList.flatMap fun (_, uses) => uses .read) ++ [⟨symbol, .write, label.span⟩]
  | .binary .assign (_, target) (_, value) => target .write ++ value .read
  | .unary op (_, operand) => operand (if op.isStep then .readWrite else .read)
  | form => form.children.flatMap fun (_, uses) => uses .read

/-- Uses below a node whose own value is used as `usage` says. -/
def uses (node : Node) (usage : Usage) : List Use := node.fold formUses usage

/-- Symbols written below the node, in the order of their first write. -/
def assigned (node : Node) (usage : Usage) : List SymbolId := assignedSymbols (node.uses usage)

def reads (node : Node) (symbol : SymbolId) : Nat := countReads (node.uses .read) symbol

def writes (node : Node) (symbol : SymbolId) : Nat := countWrites (node.uses .read) symbol

/-- Whether the node is an expression without any effect besides its value. -/
def isPure (symbols : SymbolTable) (node : Node) : Bool :=
  node.fold fun _ form => form.isPureOperation symbols && form.children.all Prod.snd

end Node

end Shading
