import Shading.Arena
import Shading.Ir.Code
import Shading.Value

/-!
# Operands, blocks and instructions

Operands and blocks are objects, which count the references held to them.
Registers and blocks are numbered; a number is never given twice.  A slot of a
block whose instruction was removed stays empty until the block is compacted.

Counts of references and numbers of registers and blocks are natural numbers.
Words of 32 bits in their place agree with them while fewer than 2 ^ 32 of each
are in use.  Nothing here compares a count with anything but zero.
-/

namespace Shading

abbrev ObjectId := Handle

abbrev InstId := Handle

structure Register where
  id : Nat
  registerClass : RegisterClass
  /-- Width in bytes. -/
  width : Nat
deriving DecidableEq

/-- The memory at `base + index + offset`. -/
structure MemoryOperand where
  base : ObjectId
  index? : Option ObjectId
  offset : Int32
deriving DecidableEq

structure ImmediateOperand where
  value : Value
  registerClass : RegisterClass
  width : Nat
  type? : Option ValueType
deriving DecidableEq

inductive BlockKind where
  | entry
  | basic
deriving DecidableEq

def BlockKind.name : BlockKind → String
  | .entry => "entry"
  | .basic => "basic"

structure Block where
  id : Nat
  kind : BlockKind
  prev? : Option ObjectId
  next? : Option ObjectId
  /-- Instructions in order, with empty slots. -/
  slots : List (Option InstId)
  requiresFixup : Bool
deriving DecidableEq

namespace Block

def create (id : Nat) (kind : BlockKind) : Block := ⟨id, kind, none, none, [], false⟩

def instructions (block : Block) : List InstId := block.slots.filterMap fun slot => slot

/-- Drops the empty slots. -/
def fixup (block : Block) : Block :=
  if block.requiresFixup then
    { block with slots := block.slots.filter (·.isSome), requiresFixup := false }
  else
    block

end Block

inductive ObjectKind where
  | register (register : Register)
  | memory (operand : MemoryOperand)
  | immediate (operand : ImmediateOperand)
  | block (block : Block)
deriving DecidableEq

namespace ObjectKind

def block? : ObjectKind → Option Block
  | .block inside => some inside
  | _ => none

/-- Width in bytes of the value an operand holds. -/
def width? : ObjectKind → Option Nat
  | .register inside => some inside.width
  | .immediate operand => some operand.width
  | .memory _ | .block _ => none

end ObjectKind

structure Object where
  kind : ObjectKind
  refs : Nat
deriving DecidableEq

/-- An instruction has at most this many operands. -/
def maxOperands : Nat := 3

structure Instruction where
  opcode : Opcode
  operands : List ObjectId
deriving DecidableEq

/-- What tells immediates apart. -/
structure ImmediateKey where
  bits : UInt64
  base : Base
  registerClass : RegisterClass
  width : Nat
  type? : Option ValueType
deriving DecidableEq

def ImmediateOperand.key (operand : ImmediateOperand) : ImmediateKey :=
  ⟨operand.value.bits, operand.value.base, operand.registerClass, operand.width, operand.type?⟩

end Shading
