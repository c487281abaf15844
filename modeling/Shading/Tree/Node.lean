import Shading.Text.Span
import Shading.Tree.Form

/-!
# The syntax tree

A node has a label (its number, the number of the node it belongs to, the type
of its value and where it stands in the source) and a form.  Statements have
type `void`.

`Node.fold` is the one recursion over trees: it computes a result for a node
from the node's label and, for each child, the child and its result.
`Node.fold_mk` is its equation and `Node.induction` the matching proof
principle.
-/

namespace Shading

structure NodeId where
  index : Nat
deriving DecidableEq

structure Label where
  id : NodeId
  /-- The node this one belongs to. -/
  parent? : Option NodeId
  type : ValueType
  span : Span
deriving DecidableEq

inductive Node where
  | mk (label : Label) (form : Form Node)

namespace Node

def label : Node → Label
  | mk label _ => label

def form : Node → Form Node
  | mk _ form => form

def id (node : Node) : NodeId := node.label.id

def parent? (node : Node) : Option NodeId := node.label.parent?

def type (node : Node) : ValueType := node.label.type

def span (node : Node) : Span := node.label.span

def children (node : Node) : List Node := node.form.children

@[simp] theorem label_mk (label : Label) (form : Form Node) : (mk label form).label = label := rfl

@[simp] theorem form_mk (label : Label) (form : Form Node) : (mk label form).form = form := rfl

@[simp] theorem mk_label_form (node : Node) : mk node.label node.form = node := by
  cases node; rfl

/-! ## Recursion -/

section

variable {β : Type} (f : Label → Form (Node × β) → β)

mutual

/-- Result for a node from the results for its children. -/
def fold : Node → β
  | mk label form => f label (foldForm form)

def foldForm : Form Node → Form (Node × β)
  | .program functions => .program (foldList functions)
  | .function symbol parameters body => .function symbol parameters (body, fold body)
  | .block statements => .block (foldList statements)
  | .branch arms => .branch (foldList arms)
  | .arm condition? body => .arm (foldOption condition?) (body, fold body)
  | .loop kind init? condition? step? body =>
    .loop kind (foldOption init?) (foldOption condition?) (foldOption step?) (body, fold body)
  | .breakLoop => .breakLoop
  | .continueLoop => .continueLoop
  | .returnValue value? => .returnValue (foldOption value?)
  | .declare symbol initializer? => .declare symbol (foldOption initializer?)
  | .swizzle object field => .swizzle (object, fold object) field
  | .var symbol => .var symbol
  | .immediate value => .immediate value
  | .unary op operand => .unary op (operand, fold operand)
  | .binary op lhs rhs => .binary op (lhs, fold lhs) (rhs, fold rhs)
  | .call callee arguments => .call callee (foldList arguments)

def foldList : List Node → List (Node × β)
  | [] => []
  | node :: rest => (node, fold node) :: foldList rest

def foldOption : Option Node → Option (Node × β)
  | none => none
  | some node => some (node, fold node)

end

theorem foldList_eq (nodes : List Node) :
    foldList f nodes = nodes.map fun node => (node, node.fold f) := by
  induction nodes with
  | nil => rfl
  | cons node rest ih => rw [foldList, ih, List.map_cons]

theorem foldOption_eq (node? : Option Node) :
    foldOption f node? = node?.map fun node => (node, node.fold f) := by
  cases node? <;> rfl

theorem foldForm_eq (form : Form Node) :
    foldForm f form = form.map fun node => (node, node.fold f) := by
  cases form <;> simp [foldForm, Form.map, foldList_eq, foldOption_eq]

theorem fold_mk (label : Label) (form : Form Node) :
    (mk label form).fold f = f label (form.map fun child => (child, child.fold f)) := by
  rw [fold, foldForm_eq]

end

/-- Number of nodes. -/
def size (node : Node) : Nat := node.fold fun _ form => 1 + form.sum Prod.snd

theorem size_mk (label : Label) (form : Form Node) :
    (mk label form).size = 1 + form.sum size := by
  rw [size, fold_mk, Form.sum_map]
  rfl

theorem size_lt_of_mem_children {node child : Node} (h : child ∈ node.children) :
    child.size < node.size := by
  cases node with
  | mk label form =>
    have := Form.le_sum_of_mem size h
    rw [size_mk]
    simp only [form_mk] at this
    omega

/-- A property of nodes holds if it passes from children to their parent. -/
@[induction_eliminator]
theorem induction {motive : Node → Prop}
    (mk : ∀ label form, (∀ child ∈ form.children, motive child) → motive (mk label form))
    (node : Node) : motive node := by
  cases h : node with
  | mk label form =>
    refine mk label form fun child hchild => ?_
    have : child.size < node.size := size_lt_of_mem_children (by rw [h]; exact hchild)
    exact induction mk child
termination_by node.size

/-- The node and all below it, parents before children. -/
def preorder (node : Node) : List Node :=
  node.fold fun label form => .mk label (form.map Prod.fst) :: form.children.flatMap Prod.snd

/-- For each node in preorder, whether its link to the node it belongs to is
the node it was reached from. -/
def links (node : Node) (parent? : Option NodeId) : List Bool :=
  node.fold (fun label form parent? =>
    decide (label.parent? = parent?) :: form.children.flatMap fun (_, links) => links (some label.id)) parent?

/-- Positions in preorder of the nodes with a wrong link. -/
def badLinks (node : Node) : List Nat :=
  (node.links none).zipIdx.filterMap fun (right, index) => if right then none else some index

/-! ## Changes -/

def withParent (node : Node) (parent? : Option NodeId) : Node :=
  .mk { node.label with parent? } node.form

def withType (node : Node) (type : ValueType) : Node := .mk { node.label with type } node.form

/-- Makes the children of a form belong to a node. -/
def adopt (id : NodeId) (form : Form Node) : Form Node := form.map (·.withParent (some id))

def withForm (node : Node) (form : Form Node) : Node := .mk node.label (adopt node.id form)

/-- A new node, which belongs to none. -/
def create (id : NodeId) (form : Form Node) (type : ValueType) (span : Span) : Node :=
  .mk ⟨id, none, type, span⟩ (adopt id form)

/-- Puts the contents of `source` in the place of `target`. -/
def replaceBy (target source : Node) : Node :=
  .mk { target.label with type := source.type, span := source.span } (adopt target.id source.form)

def toImmediate (node : Node) (value : Value) : Node :=
  .mk { node.label with type := value.type } (.immediate value)

/-- Turns the node into the statement that does nothing. -/
def toEmpty (node : Node) : Node := .mk { node.label with type := .void } .empty

/-- Wraps the value of a node in a conversion.  The conversion keeps the
number; the contents move to a new node. -/
def wrapInCast (node : Node) (fresh : NodeId) (type : ValueType) : Node :=
  (node.withType type).withForm (.unary .cast (create fresh node.form node.type node.span))

def immediate? (node : Node) : Option Value := node.form.immediate?

def literalCondition? (node : Node) : Option Bool := node.form.literalCondition?

end Node

/-- A program: its syntax tree, its symbols and how many node numbers are
taken. -/
structure Program where
  root : Node
  symbols : SymbolTable
  nodeCount : Nat

namespace Program

/-- The program without functions. -/
def empty (symbols : SymbolTable) : Program :=
  ⟨.mk ⟨⟨0⟩, none, .void, .empty⟩ (.program []), symbols, 1⟩

def functions (program : Program) : List Node := program.root.children

end Program

end Shading
