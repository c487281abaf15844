import Shading.Text.Character
import Shading.ValueType

/-!
# Data layouts

A program reads and writes the members of a structure in memory.  Members are
laid out in the order they are added, each at the next multiple of its element
size.  The member `@ret` receives the value that `main` returns.
-/

namespace Shading

inductive Access where
  | readOnly
  | writeOnly
  | readWrite
deriving DecidableEq

namespace Access

def text : Access → String
  | .readOnly => "ro"
  | .writeOnly => "wo"
  | .readWrite => "rw"

def ofText? (text : String) : Option Access :=
  [readOnly, writeOnly, readWrite].find? (·.text == text)

def isReadable : Access → Bool
  | .readOnly | .readWrite => true
  | .writeOnly => false

def isWritable : Access → Bool
  | .writeOnly | .readWrite => true
  | .readOnly => false

end Access

inductive LayoutError where
  | duplicate (name : String)
  | invalidName (name : String)
  | voidMember (name : String)
  | malformed (text : String)
deriving DecidableEq

def LayoutError.message : LayoutError → String
  | .duplicate name => "layout member `" ++ name ++ "` is declared more than once"
  | .invalidName name => "invalid layout member name `" ++ name ++ "`"
  | .voidMember name => "layout member `" ++ name ++ "` cannot have type void"
  | .malformed text => "invalid layout member `" ++ text ++ "`, expected `name:type[:ro|wo|rw]`"

/-- Name of the member that receives the result. -/
def resultName : String := "@ret"

/-! ## Declarations -/

/-- A member as it is written, `name:type[:access]`. -/
structure Declaration where
  name : String
  type : ValueType
  access? : Option Access
deriving DecidableEq

namespace Declaration

def ofParts? : List String → Option Declaration
  | [name, type] => do
    if name.isEmpty then none else return ⟨name, ← ValueType.ofText? type, none⟩
  | [name, type, access] => do
    if name.isEmpty then none else return ⟨name, ← ValueType.ofText? type, ← Access.ofText? access⟩
  | _ => none

def ofText (text : String) : Except LayoutError Declaration :=
  match ofParts? (text.splitOn ":") with
  | some declaration => .ok declaration
  | none => .error (.malformed text)

/-- Members can only be read unless they say otherwise, the result only
written. -/
def access (declaration : Declaration) : Access :=
  declaration.access?.getD (if declaration.name = resultName then .writeOnly else .readOnly)

end Declaration

/-! ## Layouts -/

structure Member where
  name : String
  type : ValueType
  offset : Nat
  access : Access
deriving DecidableEq

def Member.isResult (member : Member) : Bool := member.name = resultName

structure Layout where
  members : List Member
  size : Nat
deriving DecidableEq

/-- A name of the language, or `@ret`. -/
def isMemberName (name : String) : Bool :=
  name = resultName ||
    match name.toList with
    | [] => false
    | c :: rest => isNameStart c && rest.all isNamePart

/-- The least multiple of `step` that is at least `n`. -/
def roundUp (n step : Nat) : Nat := (n + step - 1) / step * step

namespace Layout

def empty : Layout := ⟨[], 0⟩

def get? (layout : Layout) (name : String) : Option Member := layout.members.find? (·.name = name)

def result? (layout : Layout) : Option Member := layout.get? resultName

/-- Where a member of type `type` is placed next. -/
def nextOffset (layout : Layout) (type : ValueType) : Nat := roundUp layout.size type.base.size

/-- Adds a member behind the others. -/
def add (layout : Layout) (name : String) (type : ValueType) (access : Access) :
    Except LayoutError (Member × Layout) :=
  if !isMemberName name then .error (.invalidName name)
  else if (layout.get? name).isSome then .error (.duplicate name)
  else if type.isVoid then .error (.voidMember name)
  else
    let member : Member := ⟨name, type, layout.nextOffset type, access⟩
    .ok (member, ⟨layout.members ++ [member], member.offset + type.size⟩)

def addDeclaration (layout : Layout) (declaration : Declaration) : Except LayoutError Layout :=
  (layout.add declaration.name declaration.type declaration.access).map Prod.snd

def ofDeclarations (declarations : List Declaration) : Except LayoutError Layout :=
  declarations.foldlM addDeclaration empty

/-- Reads all declarations before the first is added. -/
def ofTexts (texts : List String) : Except LayoutError Layout := do
  ofDeclarations (← texts.mapM Declaration.ofText)

/-- `a:double:ro b:double:ro c:float:ro @ret:double:wo`. -/
def sample : Layout :=
  ⟨[⟨"a", .double, 0, .readOnly⟩, ⟨"b", .double, 8, .readOnly⟩, ⟨"c", .float, 16, .readOnly⟩,
      ⟨resultName, .double, 24, .writeOnly⟩], 32⟩

end Layout

end Shading
