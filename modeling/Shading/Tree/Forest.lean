import Shading.Table
import Shading.Tree.Usage

/-!
# Trees under construction

A forest holds nodes by number, in the order they were made, and nodes name
their children by number.  Node 0 is the root of the program; the others may
or may not hang below it.  `Forest.node?` reads the tree below a node and
`Forest.ofProgram` holds the tree of a program.

A node can be made the child of several nodes, and even of one below it.  Its
link then goes to the last one that adopted it.  The tree below a shared node
is read once for each way to reach it, and a tree with a cycle cannot be read.
-/

namespace Shading

def NodeId.ofIndex (index : Index) : NodeId := ⟨index.toNat⟩

/-- A node whose children are numbers. -/
structure Entry where
  form : Form NodeId
  parent? : Option NodeId
  type : ValueType
  span : Span
deriving DecidableEq

/-- The statement that does nothing, in no node. -/
def Entry.blank : Entry := ⟨.empty, none, .void, .empty⟩

structure Forest where
  entries : Table Entry
  symbols : SymbolTable

namespace Forest

def root : NodeId := ⟨0⟩

/-- A program without functions. -/
def empty (symbols : SymbolTable) : Forest :=
  ⟨Table.empty.push ⟨.program [], none, .void, .empty⟩, symbols⟩

def size (forest : Forest) : Nat := forest.entries.size

def get? (forest : Forest) (id : NodeId) : Option Entry := forest.entries.get? id.index

/-- The contents of a node. -/
def entry (forest : Forest) (id : NodeId) : Entry := (forest.get? id).getD .blank

def modify (forest : Forest) (id : NodeId) (f : Entry → Entry) : Forest :=
  { forest with entries := forest.entries.modify id.index f }

def declare (forest : Forest) (symbol : Symbol) : SymbolId × Forest :=
  let (id, symbols) := forest.symbols.declare symbol
  (id, { forest with symbols })

/-! ## Building -/

/-- Makes nodes belong to `id`. -/
def adopt (forest : Forest) (id : NodeId) (children : List NodeId) : Forest :=
  children.foldl (fun forest child => forest.modify child ({ · with parent? := some id })) forest

/-- A new node, which belongs to none and adopts its children. -/
def add (forest : Forest) (form : Form NodeId) (type : ValueType) (span : Span) : NodeId × Forest :=
  let id : NodeId := ⟨forest.size⟩
  let grown : Forest := { forest with entries := forest.entries.push ⟨form, none, type, span⟩ }
  (id, grown.adopt id form.children)

def setForm (forest : Forest) (id : NodeId) (form : Form NodeId) : Forest :=
  (forest.adopt id form.children).modify id ({ · with form })

/-- Makes a node belong to none. -/
def detach (forest : Forest) (id : NodeId) : Forest := forest.modify id ({ · with parent? := none })

def setType (forest : Forest) (id : NodeId) (type : ValueType) : Forest :=
  forest.modify id ({ · with type })

/-- Moves the contents of `source` to `target`; `source` is left empty. -/
def replace (forest : Forest) (target source : NodeId) : Forest :=
  match forest.get? source with
  | none => forest
  | some entry =>
    if target = source then forest
    else
      let forest := forest.modify source ({ · with form := .empty, parent? := none })
      let forest := forest.modify target ({ · with type := entry.type, span := entry.span })
      forest.setForm target entry.form

def replaceByImmediate (forest : Forest) (id : NodeId) (value : Value) : Forest :=
  forest.modify id ({ · with form := .immediate value, type := value.type })

/-- Turns a node into the statement that does nothing. -/
def makeEmpty (forest : Forest) (id : NodeId) : Forest :=
  forest.modify id ({ · with form := .empty, type := .void })

/-- Wraps the value of a node in a conversion.  The conversion keeps the
number; the contents move to a new node. -/
def wrapInCast (forest : Forest) (id : NodeId) (type : ValueType) : Forest :=
  match forest.get? id with
  | none => forest
  | some entry =>
    let (inner, forest) := forest.add entry.form entry.type entry.span
    (forest.setType id type).setForm id (.unary .cast inner)

/-- Copies a tree of at most `depth` levels, children before their parent. -/
def cloneUpTo : (depth : Nat) → NodeId → StateT Forest Option NodeId
  | 0, _ => failure
  | depth + 1, id => do
    let some entry := (← get).get? id | failure
    let form ← entry.form.mapM (cloneUpTo depth)
    let (copy, forest) := (← get).add form entry.type entry.span
    set forest
    return copy

/-- A copy of the tree below a node, all of whose nodes are new; it belongs to
no node.  There is none for a tree with a cycle. -/
def cloneSubtree? (forest : Forest) (id : NodeId) : Option (NodeId × Forest) :=
  (cloneUpTo forest.size id).run forest

/-! ## Reading -/

/-- Whether the paths below a node have at most `depth` nodes, all of which
exist. -/
def isTreeUpTo (forest : Forest) : (depth : Nat) → NodeId → Bool
  | 0, _ => false
  | depth + 1, id => id.index < forest.size && (forest.entry id).form.children.all (forest.isTreeUpTo depth)

/-- The tree below a node, cut off at some depth. -/
def nodeUpTo (forest : Forest) : (depth : Nat) → NodeId → Node
  | 0, id => .mk ⟨id, none, .void, .empty⟩ .empty
  | depth + 1, id =>
    let entry := forest.entry id
    .mk ⟨id, entry.parent?, entry.type, entry.span⟩ (entry.form.map (forest.nodeUpTo depth))

/-- The tree below a node.  Without a cycle no path is longer than the number
of nodes. -/
def node? (forest : Forest) (id : NodeId) : Option Node :=
  if forest.isTreeUpTo forest.size id then some (forest.nodeUpTo forest.size id) else none

def program? (forest : Forest) : Option Program := do
  return ⟨← forest.node? root, forest.symbols, forest.size⟩

/-- The tree of a program in the places of its node numbers. -/
def ofProgram (program : Program) : Forest :=
  let blank := (List.range program.nodeCount).foldl (fun entries _ => entries.push Entry.blank) Table.empty
  program.root.preorder.foldl (fun forest node => forest.modify node.id fun _ =>
    ⟨node.form.map Node.id, node.parent?, node.type, node.span⟩) ⟨blank, program.symbols⟩

/-! ## Uses

What a node is used for is read off the node it belongs to, whichever way it
was reached. -/

/-- The form of the node that `id` belongs to. -/
def parentForm? (forest : Forest) (id : NodeId) : Option (Form NodeId) :=
  (forest.entry id).parent?.map fun parent => (forest.entry parent).form

/-- How the node that `id` belongs to uses its value. -/
def usage (forest : Forest) (id : NodeId) : Usage :=
  match forest.parentForm? id with
  | some (.binary .assign target _) => if target = id then .write else .read
  | some (.unary op _) => if op.isStep then .readWrite else .read
  | _ => .read

/-- Whether the value of `id` is not used. -/
def isStatement (forest : Forest) (id : NodeId) : Bool :=
  match forest.parentForm? id with
  | some (.block _) => true
  | some (.loop _ _ _ step? _) => step? = some id
  | _ => false

/-- Whether `id` belongs to a function. -/
def isFunctionBody (forest : Forest) (id : NodeId) : Bool :=
  match forest.parentForm? id with
  | some (.function ..) => true
  | _ => false

/-- Uses of a form, given those of its children. -/
def formUses (forest : Forest) (label : Label) : Form (Node × List Use) → List Use
  | .var symbol => [⟨symbol, forest.usage label.id, label.span⟩]
  | .declare symbol initializer? =>
    initializer?.toList.flatMap Prod.snd ++ [⟨symbol, .write, label.span⟩]
  | form => form.children.flatMap Prod.snd

/-- Uses of variables below a node in the order of evaluation. -/
def uses (forest : Forest) (id : NodeId) : List Use :=
  (forest.node? id).elim [] (·.fold forest.formUses)

/-- Symbols written below a node, in the order of their first write. -/
def assigned (forest : Forest) (id : NodeId) : List SymbolId :=
  assignedSymbols (forest.uses id)

/-- Whether a node is an expression without any effect besides its value. -/
def isPure (forest : Forest) (id : NodeId) : Bool :=
  (forest.node? id).any (·.isPure forest.symbols)

/-- A node and all below it, parents before children; a shared node is listed
once for each way to reach it. -/
def descendants (forest : Forest) (id : NodeId) : List NodeId :=
  (forest.node? id).elim [] fun node => node.preorder.map Node.id

end Forest

end Shading
