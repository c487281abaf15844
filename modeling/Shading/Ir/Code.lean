import Shading.ValueType

/-!
# Instruction codes

The instruction set: moves, fetches and stores by width, arithmetic by element
type, comparisons that yield 0 or 1, conversions and control flow.  An opcode
is a code with a vector width.
-/

namespace Shading

/-- Widths of moves and memory accesses. -/
inductive AccessWidth where
  | w32
  | w64
  | w128
  | w256
deriving DecidableEq

namespace AccessWidth

def all : List AccessWidth := [.w32, .w64, .w128, .w256]

def bytes : AccessWidth → Nat
  | .w32 => 4
  | .w64 => 8
  | .w128 => 16
  | .w256 => 32

def ofBytes? (bytes : Nat) : Option AccessWidth := all.find? (·.bytes = bytes)

end AccessWidth

inductive IntCode where
  | add
  | sub
  | mul
  | div
  | mod
  | and
  | or
  | xor
  | shl
  | shr
  | not
  | neg
  | abs
  | min
  | max
deriving DecidableEq

namespace IntCode

def all : List IntCode :=
  [.add, .sub, .mul, .div, .mod, .and, .or, .xor, .shl, .shr, .not, .neg, .abs, .min, .max]

def name : IntCode → String
  | .add => "add"
  | .sub => "sub"
  | .mul => "mul"
  | .div => "div"
  | .mod => "mod"
  | .and => "and"
  | .or => "or"
  | .xor => "xor"
  | .shl => "shl"
  | .shr => "shr"
  | .not => "not"
  | .neg => "neg"
  | .abs => "abs"
  | .min => "min"
  | .max => "max"

end IntCode

inductive FloatCode where
  | add
  | sub
  | mul
  | div
  | neg
  | abs
  | min
  | max
  | sqrt
  | floor
  | ceil
  | trunc
  | round
deriving DecidableEq

namespace FloatCode

def all : List FloatCode :=
  [.add, .sub, .mul, .div, .neg, .abs, .min, .max, .sqrt, .floor, .ceil, .trunc, .round]

def name : FloatCode → String
  | .add => "add"
  | .sub => "sub"
  | .mul => "mul"
  | .div => "div"
  | .neg => "neg"
  | .abs => "abs"
  | .min => "min"
  | .max => "max"
  | .sqrt => "sqrt"
  | .floor => "floor"
  | .ceil => "ceil"
  | .trunc => "trunc"
  | .round => "round"

end FloatCode

/-- Operations on the bits of vector registers, where truth values are kept. -/
inductive BitCode where
  | and
  | or
  | xor
deriving DecidableEq

namespace BitCode

def all : List BitCode := [.and, .or, .xor]

def name : BitCode → String
  | .and => "and"
  | .or => "or"
  | .xor => "xor"

end BitCode

inductive CompareCode where
  | eq
  | ne
  | lt
  | le
deriving DecidableEq

namespace CompareCode

def all : List CompareCode := [.eq, .ne, .lt, .le]

def name : CompareCode → String
  | .eq => "eq"
  | .ne => "ne"
  | .lt => "lt"
  | .le => "le"

end CompareCode

/-- Element types that instructions compute with. -/
inductive Element where
  | int
  | single
  | double
deriving DecidableEq

namespace Element

def all : List Element := [.int, .single, .double]

def letter : Element → String
  | .int => "i"
  | .single => "f"
  | .double => "d"

end Element

/-- Conversions; those to integers round toward zero. -/
inductive ConvertCode where
  | intToSingle
  | intToDouble
  | singleToDouble
  | doubleToSingle
  | singleToInt
  | doubleToInt
deriving DecidableEq

namespace ConvertCode

def all : List ConvertCode :=
  [.intToSingle, .intToDouble, .singleToDouble, .doubleToSingle, .singleToInt, .doubleToInt]

def name : ConvertCode → String
  | .intToSingle => "cvtif"
  | .intToDouble => "cvtid"
  | .singleToDouble => "cvtfd"
  | .doubleToSingle => "cvtdf"
  | .singleToInt => "cvttfi"
  | .doubleToInt => "cvttdi"

end ConvertCode

inductive InstCode where
  | move (width : AccessWidth)
  | fetch (width : AccessWidth)
  | store (width : AccessWidth)
  | int (code : IntCode)
  | single (code : FloatCode)
  | double (code : FloatCode)
  | bits (code : BitCode)
  | compare (code : CompareCode) (element : Element)
  | convert (code : ConvertCode)
  | jmp
  | jnz
  | ret
deriving DecidableEq

namespace InstCode

def mnemonic : InstCode → String
  | .move width => "mov" ++ toString (8 * width.bytes)
  | .fetch width => "fetch" ++ toString (8 * width.bytes)
  | .store width => "store" ++ toString (8 * width.bytes)
  | .int code => code.name ++ "i"
  | .single code => code.name ++ "f"
  | .double code => code.name ++ "d"
  | .bits code => code.name ++ "f"
  | .compare code element => "cmp" ++ code.name ++ element.letter
  | .convert code => code.name
  | .jmp => "jmp"
  | .jnz => "jnz"
  | .ret => "ret"

def all : List InstCode :=
  AccessWidth.all.map .move ++ AccessWidth.all.map .fetch ++ AccessWidth.all.map .store ++
    IntCode.all.map .int ++ FloatCode.all.map .single ++ FloatCode.all.map .double ++
    BitCode.all.map .bits ++
    Element.all.flatMap (fun element => CompareCode.all.map (.compare · element)) ++
    ConvertCode.all.map .convert ++ [.jmp, .jnz, .ret]

def ofMnemonic? (mnemonic : String) : Option InstCode := all.find? (·.mnemonic == mnemonic)

/-- Whether the only effect is to write the first operand. -/
def isPure : InstCode → Bool
  | .store _ | .jmp | .jnz | .ret => false
  | _ => true

def isControl : InstCode → Bool
  | .jmp | .jnz | .ret => true
  | _ => false

end InstCode

/-! ## Opcodes -/

inductive VectorWidth where
  | scalar
  | v128
  | v256
deriving DecidableEq

namespace VectorWidth

/-- Width of an operation on values of a type. -/
def ofType (type : ValueType) : VectorWidth :=
  if !type.isVector then .scalar else if type.size ≤ 16 then .v128 else .v256

def text : VectorWidth → String
  | .scalar => ""
  | .v128 => "@128"
  | .v256 => "@256"

end VectorWidth

structure Opcode where
  code : InstCode
  width : VectorWidth
deriving DecidableEq

namespace Opcode

def scalar (code : InstCode) : Opcode := ⟨code, .scalar⟩

def text (opcode : Opcode) : String := opcode.code.mnemonic ++ opcode.width.text

end Opcode

/-! ## Registers -/

/-- Integers and pointers live in general purpose registers, all else in
vector registers. -/
inductive RegisterClass where
  | general
  | vector
deriving DecidableEq

namespace RegisterClass

def name : RegisterClass → String
  | .general => "gp"
  | .vector => "vec"

def ofName? (name : String) : Option RegisterClass := [general, vector].find? (·.name == name)

/-- Class and width in bytes of a register for values of a type. -/
def ofType (type : ValueType) : RegisterClass × Nat :=
  if type.isScalar .int then (.general, 4) else (.vector, type.size)

end RegisterClass

end Shading
