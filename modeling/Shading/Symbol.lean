import Shading.Intrinsic
import Shading.Layout
import Shading.Table

/-!
# Symbols and scopes

A symbol table numbers every symbol ever declared and keeps the scopes that
names are resolved in.  The outermost scope holds the intrinsics and the
members of the layout; it is never closed.  A later declaration of a name in
one scope hides the earlier one.
-/

namespace Shading

structure SymbolId where
  index : Nat
deriving DecidableEq

structure Signature where
  parameters : List ValueType
  result : ValueType
deriving DecidableEq

inductive SymbolKind where
  | localVariable
  | parameter
  | member (offset : Nat) (access : Access)
  | function (signature : Signature)
  | intrinsic (f : Intrinsic)
deriving DecidableEq

/-- A named thing; the type of a function is that of its result. -/
structure Symbol where
  name : String
  type : ValueType
  kind : SymbolKind
  isConst : Bool
deriving DecidableEq

namespace Symbol

/-- What a number stands for that no symbol has. -/
def absent : Symbol := ⟨"", .void, .localVariable, false⟩

/-- Whether the value lives in a register and cannot be seen from outside the
function. -/
def isLocal (symbol : Symbol) : Bool :=
  match symbol.kind with
  | .localVariable | .parameter => true
  | _ => false

def isVariable (symbol : Symbol) : Bool :=
  match symbol.kind with
  | .localVariable | .parameter | .member .. => true
  | _ => false

def isFunction (symbol : Symbol) : Bool :=
  match symbol.kind with
  | .function _ => true
  | _ => false

def isReadable (symbol : Symbol) : Bool :=
  match symbol.kind with
  | .member _ access => access.isReadable
  | _ => symbol.isVariable

def isWritable (symbol : Symbol) : Bool :=
  !symbol.isConst &&
    match symbol.kind with
    | .member _ access => access.isWritable
    | _ => symbol.isLocal

end Symbol

/-- Names of one scope, newest first. -/
abbrev Scope := List (String × SymbolId)

structure SymbolTable where
  symbols : Table Symbol
  /-- The outermost scope. -/
  outer : Scope
  /-- The scopes inside it, innermost first. -/
  inner : List Scope
  /-- The layout member that receives the result. -/
  result? : Option SymbolId

namespace SymbolTable

def size (table : SymbolTable) : Nat := table.symbols.size

def isEmpty (table : SymbolTable) : Bool := table.symbols.isEmpty

def get (table : SymbolTable) (id : SymbolId) : Symbol :=
  (table.symbols.get? id.index).getD Symbol.absent

def openScope (table : SymbolTable) : SymbolTable := { table with inner := [] :: table.inner }

def closeScope (table : SymbolTable) : SymbolTable := { table with inner := table.inner.tail }

/-- The innermost scope. -/
def current (table : SymbolTable) : Scope := table.inner.head?.getD table.outer

/-- Declares a symbol in the innermost scope. -/
def declare (table : SymbolTable) (symbol : Symbol) : SymbolId × SymbolTable :=
  let id : SymbolId := ⟨table.symbols.size⟩
  let symbols := table.symbols.push symbol
  match table.inner with
  | [] => (id, { table with symbols, outer := (symbol.name, id) :: table.outer })
  | scope :: rest => (id, { table with symbols, inner := ((symbol.name, id) :: scope) :: rest })

def isDeclared (table : SymbolTable) (name : String) : Bool := (table.current.lookup name).isSome

/-- The symbol a name stands for, innermost scope first. -/
def lookup (table : SymbolTable) (name : String) : Option SymbolId :=
  (table.inner ++ [table.outer]).findSome? (·.lookup name)

def empty : SymbolTable := ⟨.empty, [], [], none⟩

def addIntrinsic (table : SymbolTable) (f : Intrinsic) : SymbolTable :=
  (table.declare ⟨f.name, .void, .intrinsic f, true⟩).2

def addMember (table : SymbolTable) (member : Member) : SymbolTable :=
  let (id, table) := table.declare ⟨member.name, member.type, .member member.offset member.access, false⟩
  if member.isResult then { table with result? := some id } else table

/-- The intrinsics and the members of a layout. -/
def ofLayout (layout : Layout) : SymbolTable :=
  layout.members.foldl addMember (Intrinsic.all.foldl addIntrinsic empty)

end SymbolTable

end Shading
