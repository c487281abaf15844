import Shading.Diagnostic
import Shading.Ir.Object

/-!
# Building IR

A builder holds the objects and instructions of one function.  Objects start
without references; an operand slot of an instruction and a base or index of a
memory operand hold one each.  Blocks form a doubly linked list.

Operations can fail.  What a failed operation did up to then stays done.
-/

namespace Shading

/-- Why an operation does not fit the state of a builder. -/
inductive BuilderFault where
  | tooManyDataSlots (count : Nat)
  | staleObject (id : ObjectId)
  | notBlock
  | notRegister
  | tooManyOperands (opcode : Opcode) (count : Nat)
  | unmovable (source target : Nat)
  | fetchSource
  | unfetchable (width : Nat)
  | storeTarget
  | unstorable (width : Nat)
  | negativeCount (id : ObjectId)
  | staleInstruction (id : InstId)
  | emptySlot (slot : Nat)
  | missingDataSlot
  | noConversion (source target : Base)
deriving DecidableEq

/-- Number of data slots a function can receive. -/
def maxDataSlots : Nat := 4

/-- Width in bytes of a data slot. -/
def pointerWidth : Nat := 8

namespace BuilderFault

def message : BuilderFault → String
  | .tooManyDataSlots count =>
    toString count ++ " data slots requested but at most " ++ toString maxDataSlots ++ " are supported"
  | .staleObject id => "stale object handle " ++ id.text
  | .notBlock => "operand is not a block"
  | .notRegister => "operand is not a register"
  | .tooManyOperands opcode count =>
    "`" ++ opcode.text ++ "` given " ++ toString count ++ " operands, at most " ++
      toString maxOperands ++ " are supported"
  | .unmovable source target =>
    "cannot move a " ++ toString source ++ "-byte register into a " ++ toString target ++
      "-byte register"
  | .fetchSource => "fetch source must be a memory or immediate operand"
  | .unfetchable width => "cannot fetch into a " ++ toString width ++ "-byte register"
  | .storeTarget => "store destination must be a memory operand"
  | .unstorable width => "cannot store a " ++ toString width ++ "-byte register"
  | .negativeCount id => "reference count of " ++ id.text ++ " would drop below zero"
  | .staleInstruction id => "stale instruction handle " ++ id.text
  | .emptySlot slot => "no instruction in slot " ++ toString slot
  | .missingDataSlot => "missing data slot"
  | .noConversion source target => "no conversion from " ++ source.name ++ " to " ++ target.name

end BuilderFault

inductive IrError where
  | outOfMemory
  | entryBlockExists
  | invalidState (fault : BuilderFault)
deriving DecidableEq

namespace IrError

def message : IrError → String
  | .outOfMemory => "IR arena exhausted"
  | .entryBlockExists => "function already has an entry block"
  | .invalidState fault => "invalid IR builder state: " ++ fault.message

def code : IrError → ErrorCode
  | .outOfMemory => .outOfMemory
  | .entryBlockExists => .entryBlockExists
  | .invalidState _ => .invalidState

def diagnostic (error : IrError) : Diagnostic := ⟨error.code, none, error.message⟩

end IrError

structure Builder where
  objects : Arena Object
  instructions : Arena Instruction
  first? : Option ObjectId
  last? : Option ObjectId
  entryBlock? : Option ObjectId
  /-- Whether there ever was an entry block. -/
  hadEntry : Bool
  /-- Registers that hold the data pointers, until they are released. -/
  dataSlots : List (Option ObjectId)
  registerCount : Nat
  blockCount : Nat
  /-- Live immediates, each once. -/
  immediates : List (ImmediateKey × ObjectId)

abbrev Build := ExceptT IrError (StateM Builder)

namespace Builder

def empty (limit? : Option Nat) : Builder :=
  ⟨.empty limit?, .empty limit?, none, none, none, false, [], 0, 0, []⟩

def object? (builder : Builder) (id : ObjectId) : Option Object := builder.objects.get? id

def kind? (builder : Builder) (id : ObjectId) : Option ObjectKind :=
  (builder.object? id).map (·.kind)

def instruction? (builder : Builder) (id : InstId) : Option Instruction := builder.instructions.get? id

def block? (builder : Builder) (id : ObjectId) : Option Block :=
  (builder.kind? id).bind (·.block?)

def refs? (builder : Builder) (id : ObjectId) : Option Nat := (builder.object? id).map (·.refs)

def dataSlot? (builder : Builder) (index : Nat) : Option ObjectId := builder.dataSlots[index]?.join

/-- Blocks from `id?` on, at most `bound` of them. -/
def blocksFrom (builder : Builder) : (bound : Nat) → (id? : Option ObjectId) → List ObjectId
  | bound + 1, some id => id :: builder.blocksFrom bound ((builder.block? id).bind (·.next?))
  | _, _ => []

/-- The listed blocks. -/
def blocks (builder : Builder) : List ObjectId :=
  builder.blocksFrom builder.objects.live builder.first?

end Builder

namespace Build

variable {α : Type}

def fail (fault : BuilderFault) : Build α := throw (.invalidState fault)

/-! ## Access -/

def object (id : ObjectId) : Build Object := do
  match (← get).object? id with
  | some object => return object
  | none => fail (.staleObject id)

def block (id : ObjectId) : Build Block := do
  match (← object id).kind with
  | .block block => return block
  | _ => fail .notBlock

def register (id : ObjectId) : Build Register := do
  match (← object id).kind with
  | .register register => return register
  | _ => fail .notRegister

def modifyObject (id : ObjectId) (f : Object → Object) : Build Unit :=
  modify fun builder => { builder with objects := builder.objects.modify id f }

/-- Changes a block. -/
def modifyBlock (id : ObjectId) (f : Block → Block) : Build Unit := do
  let block ← block id
  modifyObject id fun object => { object with kind := .block (f block) }

def allocObject (kind : ObjectKind) : Build ObjectId := do
  let builder ← get
  match builder.objects.alloc ⟨kind, 0⟩ with
  | some (id, objects) =>
    set { builder with objects }
    return id
  | none => throw .outOfMemory

def retain (id : ObjectId) : Build Unit := do
  let _ ← object id
  modifyObject id fun object => { object with refs := object.refs + 1 }

/-! ## Operands -/

/-- A new register.  Its number is used up even if there is no room. -/
def allocRegister (registerClass : RegisterClass) (width : Nat) : Build ObjectId := do
  modify fun builder => { builder with registerCount := builder.registerCount + 1 }
  allocObject (.register ⟨(← get).registerCount, registerClass, width⟩)

def newRegisterFor (type : ValueType) : Build ObjectId :=
  let (registerClass, width) := RegisterClass.ofType type
  allocRegister registerClass width

/-- A new register of any width, which one byte holds. -/
def newRegister (registerClass : RegisterClass) (width : UInt8) : Build ObjectId :=
  allocRegister registerClass width.toNat

def newMemory (base : ObjectId) (index? : Option ObjectId) (offset : Int32) : Build ObjectId := do
  let _ ← register base
  if let some index := index? then
    let _ ← register index
  let id ← allocObject (.memory ⟨base, index?, offset⟩)
  retain base
  if let some index := index? then
    retain index
  return id

/-- The immediate with the key of `operand`, which is made if there is none. -/
def internImmediate (operand : ImmediateOperand) : Build ObjectId := do
  let builder ← get
  match (builder.immediates.lookup operand.key).filter builder.objects.contains with
  | some id => return id
  | none =>
    let id ← allocObject (.immediate operand)
    modify fun builder =>
      let others := builder.immediates.filter (·.1 ≠ operand.key)
      { builder with immediates := (operand.key, id) :: others }
    return id

/-- An untyped immediate of any width, which one byte holds. -/
def newImmediate (value : Value) (registerClass : RegisterClass) (width : UInt8) : Build ObjectId :=
  internImmediate ⟨value, registerClass, width.toNat, none⟩

def newImmediateFor (value : Value) (type : ValueType) : Build ObjectId :=
  let (registerClass, width) := RegisterClass.ofType type
  internImmediate ⟨value, registerClass, width, some type⟩

/-! ## Blocks -/

def linkLast (id : ObjectId) : Build Unit := do
  let previous? := (← get).last?
  modifyBlock id fun block => { block with prev? := previous?, next? := none }
  match previous? with
  | some previous => modifyBlock previous fun block => { block with next? := some id }
  | none => modify fun builder => { builder with first? := some id }
  modify fun builder => { builder with last? := some id }

def linkFirst (id : ObjectId) : Build Unit := do
  let next? := (← get).first?
  modifyBlock id fun block => { block with prev? := none, next? := next? }
  match next? with
  | some next => modifyBlock next fun block => { block with prev? := some id }
  | none => modify fun builder => { builder with last? := some id }
  modify fun builder => { builder with first? := some id }

def unlink (id : ObjectId) : Build Unit := do
  let removed ← block id
  modifyBlock id fun block => { block with prev? := none, next? := none }
  match removed.prev? with
  | some previous => modifyBlock previous fun block => { block with next? := removed.next? }
  | none => modify fun builder => { builder with first? := removed.next? }
  match removed.next? with
  | some next => modifyBlock next fun block => { block with prev? := removed.prev? }
  | none => modify fun builder => { builder with last? := removed.prev? }

def allocBlock (kind : BlockKind) : Build ObjectId := do
  let id ← allocObject (.block (.create ((← get).blockCount + 1) kind))
  modify fun builder => { builder with blockCount := builder.blockCount + 1 }
  return id

/-- A new block at the end of the list. -/
def newBlock : Build ObjectId := do
  let id ← allocBlock .basic
  linkLast id
  return id

/-- The entry block, at the head of the list.  The builder holds a reference
to it. -/
def initEntry : Build ObjectId := do
  if (← get).hadEntry then
    throw .entryBlockExists
  else
    let id ← allocBlock .entry
    linkFirst id
    retain id
    modify fun builder => { builder with entryBlock? := some id, hadEntry := true }
    return id

def moveToEnd (id : ObjectId) : Build Unit := do
  if (← get).last? ≠ some id then
    unlink id
    linkLast id

/-- Compacts all listed blocks. -/
def fixupBlocks : Build Unit := do
  (← get).blocks.forM fun id => modifyBlock id Block.fixup

/-! ## Instructions -/

/-- Appends an instruction to a block; it holds a reference to each operand. -/
def emit (target : ObjectId) (opcode : Opcode) (operands : List ObjectId) : Build InstId := do
  if maxOperands < operands.length then
    fail (.tooManyOperands opcode operands.length)
  else
    let _ ← block target
    operands.forM fun operand => discard (object operand)
    let builder ← get
    match builder.instructions.alloc ⟨opcode, operands⟩ with
    | none => throw .outOfMemory
    | some (id, instructions) =>
      set { builder with instructions }
      operands.forM retain
      modifyBlock target fun block => { block with slots := block.slots ++ [some id] }
      return id

/-- Copies a register into another; the narrower one sets the width. -/
def emitMove (target dst src : ObjectId) : Build InstId := do
  let destination ← register dst
  let source ← register src
  match AccessWidth.ofBytes? (min destination.width source.width) with
  | some width => emit target (.scalar (.move width)) [dst, src]
  | none => fail (.unmovable source.width destination.width)

/-- Loads memory or an immediate into a register, which sets the width. -/
def emitFetch (target dst src : ObjectId) : Build InstId := do
  let destination ← register dst
  match (← object src).kind with
  | .memory _ | .immediate _ =>
    match AccessWidth.ofBytes? destination.width with
    | some width => emit target (.scalar (.fetch width)) [dst, src]
    | none => fail (.unfetchable destination.width)
  | _ => fail .fetchSource

/-- Writes a register, which sets the width, to memory. -/
def emitStore (target dst src : ObjectId) : Build InstId := do
  let source ← register src
  match (← object dst).kind with
  | .memory _ =>
    match AccessWidth.ofBytes? source.width with
    | some width => emit target (.scalar (.store width)) [dst, src]
    | none => fail (.unstorable source.width)
  | _ => fail .storeTarget

end Build

/-- A builder for a function that receives some data slots. -/
def Builder.create (slots : Nat) (limit? : Option Nat) : Except IrError Builder :=
  if maxDataSlots < slots then
    .error (.invalidState (.tooManyDataSlots slots))
  else
    let addSlot : Build Unit := do
      let id ← Build.allocRegister .general pointerWidth
      Build.retain id
      modify fun builder => { builder with dataSlots := builder.dataSlots ++ [some id] }
    match ((List.replicate slots ()).forM fun _ => addSlot).run.run (.empty limit?) with
    | (.ok (), builder) => .ok builder
    | (.error error, _) => .error error

end Shading
