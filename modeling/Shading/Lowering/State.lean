import Shading.Ir.Teardown
import Shading.Operator
import Shading.Symbol

/-!
# Lowering: errors, state and blocks

Instructions go to the current block until a jump or return ends it; the next
instruction then opens a new block.  Control flow makes its blocks in advance
and moves each to the end of the list right before it is filled, so blocks are
listed in the order of the source.
-/

namespace Shading

/-- What cannot be lowered. -/
inductive Construct where
  | entryParameters
  | strayJump
  | nestedFunction
  | malformedBranch
  | swizzle (field : String)
  | statementValue
  | functionValue (name : String)
  | undeclaredUse (name : String)
  | stepOfExpression (op : UnaryOp)
  | stepOfType (op : UnaryOp) (type : ValueType)
  | assignToExpression
  | vectorComparison
  | operandEffect (op : BinaryOp)
  | call (name : String)
deriving DecidableEq

/-- Name of the function that is lowered. -/
def entryName : String := "main"

def Construct.text : Construct → String
  | .entryParameters => "`" ++ entryName ++ "` with parameters"
  | .strayJump => "jump outside of a loop"
  | .nestedFunction => "nested function"
  | .malformedBranch => "malformed branch"
  | .swizzle field => "swizzle `." ++ field ++ "`"
  | .statementValue => "statement in expression position"
  | .functionValue name => "`" ++ name ++ "` as a value"
  | .undeclaredUse name => "use of `" ++ name ++ "` before its declaration"
  | .stepOfExpression op => "operator `" ++ op.symbol ++ "` on a non-variable"
  | .stepOfType op type => "operator `" ++ op.symbol ++ "` on `" ++ type.text ++ "`"
  | .assignToExpression => "assignment to a non-variable"
  | .vectorComparison => "vector comparison"
  | .operandEffect op => "right operand of `" ++ op.symbol ++ "` with side effects"
  | .call name => "call to `" ++ name ++ "`"

inductive LoweringError where
  | missingMain
  | missingResult (span : Span)
  | unsupported (construct : Construct) (span : Span)
  | ir (error : IrError)
deriving DecidableEq

namespace LoweringError

def message : LoweringError → String
  | .missingMain => "program has no `" ++ entryName ++ "` function"
  | .missingResult _ => "layout has no `" ++ resultName ++ "` member to return a value through"
  | .unsupported construct _ => construct.text ++ " cannot be lowered to IR"
  | .ir error => error.message

def code : LoweringError → ErrorCode
  | .missingMain | .missingResult _ | .unsupported .. => .unsupportedConstruct
  | .ir error => error.code

def span? : LoweringError → Option Span
  | .missingResult span | .unsupported _ span => some span
  | .missingMain | .ir _ => none

def diagnostic (error : LoweringError) : Diagnostic := ⟨error.code, error.span?, error.message⟩

end LoweringError

/-- Where `break` and `continue` go. -/
structure LoopTargets where
  breakTo : ObjectId
  continueTo : ObjectId

structure LoweringState where
  builder : Builder
  /-- The register with the address of the layout. -/
  base : ObjectId
  current : ObjectId
  /-- The current block ends in a jump or return. -/
  terminated : Bool
  /-- Registers of the locals declared so far. -/
  locals : List (SymbolId × ObjectId)
  /-- Open loops, innermost first. -/
  loops : List LoopTargets

abbrev Lower := StateT LoweringState (Except LoweringError)

namespace Lower

variable {α : Type}

def unsupported (construct : Construct) (span : Span) : Lower α := throw (.unsupported construct span)

/-- Runs an operation of the builder. -/
def build (action : Build α) : Lower α := do
  let state ← get
  match action.run.run state.builder with
  | (.ok a, builder) =>
    set { state with builder }
    return a
  | (.error error, _) => throw (.ir error)

/-! ## Blocks -/

/-- The block to emit into, a new one if the last is finished. -/
def openBlock : Lower ObjectId := do
  if (← get).terminated then
    let id ← build Build.newBlock
    modify fun state => { state with current := id, terminated := false }
    return id
  else
    return (← get).current

def emit (opcode : Opcode) (operands : List ObjectId) : Lower Unit := do
  let block ← openBlock
  let _ ← build (Build.emit block opcode operands)

def emitMove (dst src : ObjectId) : Lower Unit := do
  let block ← openBlock
  let _ ← build (Build.emitMove block dst src)

def emitFetch (dst src : ObjectId) : Lower Unit := do
  let block ← openBlock
  let _ ← build (Build.emitFetch block dst src)

def emitStore (dst src : ObjectId) : Lower Unit := do
  let block ← openBlock
  let _ ← build (Build.emitStore block dst src)

def terminate : Lower Unit := modify fun state => { state with terminated := true }

def isTerminated : Lower Bool := return (← get).terminated

def jump (target : ObjectId) : Lower Unit := do
  emit (.scalar .jmp) [target]
  terminate

/-- Jumps unless the current block is finished. -/
def jumpIfOpen (target : ObjectId) : Lower Unit := do
  if !(← isTerminated) then jump target

/-- Jumps on a truth value. -/
def branch (value ifTrue ifFalse : ObjectId) : Lower Unit := do
  emit (.scalar .jnz) [value, ifTrue]
  jump ifFalse

/-- Goes on in `block`.  A block that nothing jumps to is removed; the result
says whether the block stays. -/
def enter (block : ObjectId) : Lower Bool := do
  build (Build.moveToEnd block)
  jumpIfOpen block
  if (← get).builder.refs? block = some 0 then
    build (Build.deleteObject block)
    return false
  else
    modify fun state => { state with current := block, terminated := false }
    return true

/-- Goes on in `block`, whether it stays or not. -/
def pass (block : ObjectId) : Lower Unit := do
  let _ ← enter block

/-- Fills `block`, if it stays. -/
def fill (block : ObjectId) (action : Lower Unit) : Lower Unit := do
  if ← enter block then action

/-- Runs an action on a part that may be missing. -/
def forSome (part? : Option α) (action : α → Lower Unit) : Lower Unit :=
  match part? with
  | some part => action part
  | none => return ()

/-- A new register of a type that receives the result of an instruction. -/
def compute (code : InstCode) (type : ValueType) (sources : List ObjectId) : Lower ObjectId := do
  let dst ← build (Build.newRegisterFor type)
  emit ⟨code, .ofType type⟩ (dst :: sources)
  return dst

end Lower

end Shading
