import Shading.Ir.Builder
import Shading.Text.Paint

/-!
# IR as text

A line for each block and, indented, one for each of its instructions.
`Builder.dump` writes it plainly and `Builder.text` with each word painted.
-/

namespace Shading

namespace Builder

/-- Text of the base of a memory operand. -/
def baseText (builder : Builder) (id : ObjectId) : String :=
  match builder.kind? id with
  | some (.register register) => "%" ++ toString register.id
  | _ => "<stale>"

/-- Text of an operand; the index register of a memory operand is not shown. -/
def operandText (builder : Builder) (id : ObjectId) : String :=
  match builder.kind? id with
  | some (.register register) => "%" ++ toString register.id
  | some (.immediate operand) => operand.value.text
  | some (.block block) => "B" ++ toString block.id
  | some (.memory operand) =>
    "[" ++ builder.baseText operand.base ++ " + " ++ toString operand.offset.toInt ++ "]"
  | none => "<stale>"

section

variable (builder : Builder)

/-- Operands, the first behind a blank and the others behind commas. -/
def dumpOperands (operands : List ObjectId) : String :=
  String.join (operands.mapIdx fun n id => (if n = 0 then " " else ", ") ++ builder.operandText id)

def dumpInstruction (instruction : Instruction) : String :=
  "  " ++ instruction.opcode.text ++ builder.dumpOperands instruction.operands ++ "\n"

def dumpBlock (block : Block) : String :=
  ".B" ++ toString block.id ++ "\n" ++
    String.join ((block.instructions.filterMap builder.instruction?).map builder.dumpInstruction)

/-- Text of all blocks. -/
def dump : String := String.join ((builder.blocks.filterMap builder.block?).map builder.dumpBlock)

end

def operandPaint (builder : Builder) (id : ObjectId) : Paint :=
  match builder.kind? id with
  | some (.register _) => .yellow
  | some (.immediate _) => .green
  | some (.block _) => .blue
  | some (.memory _) | none => .white

def codePaint (code : InstCode) : Paint := if code.isControl then .cyan else .magenta

section

variable (builder : Builder) (paint : Paint → String → String)

def operandsText (operands : List ObjectId) : String :=
  ", ".intercalate (operands.map fun id => paint (builder.operandPaint id) (builder.operandText id))

def instructionLine (instruction : Instruction) : String :=
  let code := paint (codePaint instruction.opcode.code) instruction.opcode.text
  let operands := builder.operandsText paint instruction.operands
  "  " ++ code ++ (if operands.isEmpty then "" else " " ++ operands)

def blockLines (block : Block) : List String :=
  paint .brightRed (".B" ++ toString block.id) ::
    (block.instructions.filterMap builder.instruction?).map (builder.instructionLine paint)

def lines : List String :=
  (builder.blocks.filterMap builder.block?).flatMap (builder.blockLines paint)

/-- Text of all blocks, colored as `paint` says. -/
def text : String := String.join ((builder.lines paint).map (· ++ "\n"))

end

end Builder

end Shading
