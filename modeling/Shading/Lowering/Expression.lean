import Shading.Lowering.State
import Shading.Tree.Usage

/-!
# Lowering expressions

The value of an expression goes to a register.  Locals live in registers,
members of the layout in memory.  Truth values are 0 or 1 in vector registers,
so `!x` is `x ^ 1`, and `&&` and `||` evaluate both operands.
-/

namespace Shading

/-- How a child is lowered. -/
structure Lowered where
  node : Node
  /-- Computes the value. -/
  expression : Lower ObjectId
  statement : Lower Unit
  /-- For an arm of a branch, how its condition and body are lowered. -/
  arm? : Option (Option (Lower ObjectId) × Lower Unit)

namespace Lower

variable (symbols : SymbolTable)

/-! ## Variables -/

/-- Offset of a member of the layout; locals have none. -/
def memberOffset? (symbol : SymbolId) (span : Span) : Lower (Option Int32) :=
  match (symbols.get symbol).kind with
  | .member offset _ => return some (Int32.ofNat offset)
  | .localVariable | .parameter => return none
  | _ => unsupported (.functionValue (symbols.get symbol).name) span

def memberOperand (offset : Int32) : Lower ObjectId := do
  build (Build.newMemory (← get).base none offset)

def loadLocal (symbol : SymbolId) (span : Span) : Lower ObjectId := do
  match (← get).locals.lookup symbol with
  | some id => return id
  | none => unsupported (.undeclaredUse (symbols.get symbol).name) span

def load (symbol : SymbolId) (span : Span) : Lower ObjectId := do
  match ← memberOffset? symbols symbol span with
  | some offset =>
    let dst ← build (Build.newRegisterFor (symbols.get symbol).type)
    let memory ← memberOperand offset
    emitFetch dst memory
    return dst
  | none => loadLocal symbols symbol span

/-- Writes a value to a symbol; gives the register that holds it then. -/
def store (symbol : SymbolId) (span : Span) (value : ObjectId) : Lower ObjectId := do
  match ← memberOffset? symbols symbol span with
  | some offset =>
    let memory ← memberOperand offset
    emitStore memory value
    return value
  | none =>
    let dst ← loadLocal symbols symbol span
    emitMove dst value
    return dst

def immediate (value : Value) (type : ValueType) : Lower ObjectId := do
  let dst ← build (Build.newRegisterFor type)
  let operand ← build (Build.newImmediateFor value type)
  emitFetch dst operand
  return dst

/-- The truth value 1. -/
def trueOperand : Lower ObjectId := build (Build.newImmediateFor (.bool true) .bool)

/-! ## Codes -/

/-- The variant of an operation for a base type. -/
def arithmeticCode (base : Base) (int : IntCode) (float : FloatCode) : InstCode :=
  match base with
  | .float => .single float
  | .double => .double float
  | _ => .int int

def bitwiseCode (base : Base) (int : IntCode) (bits : BitCode) : InstCode :=
  match base with
  | .bool => .bits bits
  | _ => .int int

def element : Base → Element
  | .float => .single
  | .double => .double
  | _ => .int

/-- Code of an operation that is neither assignment, comparison nor logical. -/
def operationCode (op : BinaryOp) (base : Base) : InstCode :=
  match op with
  | .add => arithmeticCode base .add .add
  | .sub => arithmeticCode base .sub .sub
  | .mul => arithmeticCode base .mul .mul
  | .div => arithmeticCode base .div .div
  | .mod => .int .mod
  | .bitAnd => bitwiseCode base .and .and
  | .bitOr => bitwiseCode base .or .or
  | .bitXor => bitwiseCode base .xor .xor
  | .shiftLeft => .int .shl
  | _ => .int .shr

/-- Code of an intrinsic on a base type. -/
def intrinsicCode? (f : Intrinsic) (base : Base) : Option InstCode :=
  let floating (code : FloatCode) : Option InstCode :=
    match base with
    | .float => some (.single code)
    | .double => some (.double code)
    | _ => none
  match f with
  | .abs => some (arithmeticCode base .abs .abs)
  | .min => some (arithmeticCode base .min .min)
  | .max => some (arithmeticCode base .max .max)
  | .sqrt => floating .sqrt
  | .floor => floating .floor
  | .ceil => floating .ceil
  | .trunc => floating .trunc
  | .round => floating .round
  | _ => none

/-! ## Casts -/

def convertCode? : Base → Base → Option ConvertCode
  | .int, .float => some .intToSingle
  | .int, .double => some .intToDouble
  | .float, .double => some .singleToDouble
  | .double, .float => some .doubleToSingle
  | .float, .int => some .singleToInt
  | .double, .int => some .doubleToInt
  | _, _ => none

/-- Converts between numeric types; the wider type sets the vector width. -/
def convert (value : ObjectId) (source target : ValueType) : Lower ObjectId := do
  match convertCode? source.base target.base with
  | none => throw (.ir (.invalidState (.noConversion source.base target.base)))
  | some code =>
    let wider := if target.size < source.size then source else target
    let dst ← build (Build.newRegisterFor target)
    emit ⟨.convert code, .ofType wider⟩ [dst, value]
    return dst

/-- Moves a value to a register of another type as it is. -/
def copy (value : ObjectId) (target : ValueType) : Lower ObjectId := do
  let dst ← build (Build.newRegisterFor target)
  emitMove dst value
  return dst

/-- Whether a value differs from zero. -/
def compareToZero (value : ObjectId) (zero : Value) (source target : ValueType) : Lower ObjectId := do
  let zero ← build (Build.newImmediateFor zero (.scalar source.base))
  let dst ← build (Build.newRegisterFor target)
  emit ⟨.compare .ne (element source.base), .ofType source⟩ [dst, value, zero]
  return dst

def cast (value : ObjectId) (source target : ValueType) : Lower ObjectId := do
  if source.base = target.base then
    return value
  else
    match source.base, target.base with
    | .int, .bool => compareToZero value (.int 0) source target
    | .float, .bool => compareToZero value (.float .zero) source target
    | .double, .bool => compareToZero value (.double .zero) source target
    | .bool, .int => copy value target
    | .bool, .float | .bool, .double =>
      let int := source.withBase .int
      let value ← copy value int
      convert value int target
    | _, _ => convert value source target

/-! ## Operators -/

/-- `++` and `--`.  A local is changed in place, so a postfix operator copies
its old value first. -/
def step (label : Label) (op : UnaryOp) (operand : Node) : Lower ObjectId := do
  let type := label.type
  match operand.form, if type.isVector then none else Value.one? type.base with
  | .var symbol, some one =>
    let code :=
      if op.isIncrement then arithmeticCode type.base .add .add
      else arithmeticCode type.base .sub .sub
    let one ← build (Build.newImmediateFor one type)
    let current ← load symbols symbol operand.span
    let isMember := (← memberOffset? symbols symbol operand.span).isSome
    let old ← if op.isPreStep || isMember then pure current else copy current type
    let updated ← compute code type [current, one]
    let updated ← store symbols symbol operand.span updated
    return if op.isPreStep then updated else old
  | .var _, none => unsupported (.stepOfType op type) label.span
  | _, _ => unsupported (.stepOfExpression op) label.span

def unary (label : Label) (op : UnaryOp) (operand : Lowered) : Lower ObjectId := do
  if op.isStep then
    step symbols label op operand.node
  else
    let value ← operand.expression
    match op with
    | .negate => compute (arithmeticCode label.type.base .neg .neg) label.type [value]
    | .complement => compute (.int .not) label.type [value]
    | .not => compute (.bits .xor) label.type [value, ← trueOperand]
    | _ => cast value operand.node.type label.type

def assign (target value : Lowered) : Lower ObjectId := do
  match target.node.form with
  | .var symbol => store symbols symbol target.node.span (← value.expression)
  | _ => unsupported .assignToExpression target.node.span

/-- Truth values only compare for equality: `a != b` is `a ^ b`. -/
def compareBools (op : BinaryOp) (type : ValueType) (left right : ObjectId) : Lower ObjectId := do
  let differs ← compute (.bits .xor) type [left, right]
  if op = .ne then
    return differs
  else
    let one ← trueOperand
    compute (.bits .xor) type [differs, one]

/-- Comparisons; `a > b` is `b < a`. -/
def comparison (label : Label) (op : BinaryOp) (lhs rhs : Lowered) : Lower ObjectId := do
  let operands := lhs.node.type
  if operands.isVector then
    unsupported .vectorComparison label.span
  else
    let left ← lhs.expression
    let right ← rhs.expression
    if operands.base = .bool then
      compareBools op label.type left right
    else
      let compare (code : CompareCode) (sources : List ObjectId) : Lower ObjectId :=
        compute (.compare code (element operands.base)) label.type sources
      match op with
      | .eq => compare .eq [left, right]
      | .ne => compare .ne [left, right]
      | .lt => compare .lt [left, right]
      | .gt => compare .lt [right, left]
      | .ge => compare .le [right, left]
      | _ => compare .le [left, right]

/-- `&&` and `||`, whose right operand must not have an effect. -/
def logical (label : Label) (op : BinaryOp) (lhs rhs : Lowered) : Lower ObjectId := do
  if !rhs.node.isPure symbols then
    unsupported (.operandEffect op) rhs.node.span
  else
    let left ← lhs.expression
    let right ← rhs.expression
    compute (.bits (if op = .and then .and else .or)) label.type [left, right]

def binary (label : Label) (op : BinaryOp) (lhs rhs : Lowered) : Lower ObjectId := do
  match op.operatorClass with
  | .assignment => assign symbols lhs rhs
  | .comparison => comparison label op lhs rhs
  | .logical => logical symbols label op lhs rhs
  | _ =>
    let left ← lhs.expression
    let right ← rhs.expression
    compute (operationCode op label.type.base) label.type [left, right]

def call (label : Label) (callee : SymbolId) (arguments : List Lowered) : Lower ObjectId := do
  let symbol := symbols.get callee
  let code? := match symbol.kind with
    | .intrinsic f => intrinsicCode? f label.type.base
    | _ => none
  match code? with
  | none => unsupported (.call symbol.name) label.span
  | some code => compute code label.type (← arguments.mapM (·.expression))

/-- The value of a node. -/
def expression (label : Label) (form : Form Lowered) : Lower ObjectId :=
  match form with
  | .immediate value => immediate value label.type
  | .var symbol => load symbols symbol label.span
  | .swizzle _ field => unsupported (.swizzle field) label.span
  | .unary op operand => unary symbols label op operand
  | .binary op lhs rhs => binary symbols label op lhs rhs
  | .call callee arguments => call symbols label callee arguments
  | _ => unsupported .statementValue label.span

end Lower

end Shading
