import Shading.Ir.Builder

/-!
# Removing instructions and objects

Dropping the last reference to an object removes it and drops the references
it holds.  A block is taken off the list and freed before its instructions are
removed, so each level of removal has fewer live objects than the one before;
this bounds the recursion.
-/

namespace Shading

namespace Build

section

variable (delete : ObjectId → Build Unit)

/-- Drops a reference; `delete` removes what has none left. -/
def releaseWith (id : ObjectId) : Build Unit := do
  let object ← object id
  if object.refs = 0 then
    fail (.negativeCount id)
  else
    modifyObject id fun object => { object with refs := object.refs - 1 }
    if object.refs = 1 then delete id

/-- Drops the references of an instruction and frees it.  Operands that are
gone, as a block that jumps to itself, are passed over. -/
def deleteInstWith (id : InstId) : Build Unit := do
  match (← get).instruction? id with
  | none => fail (.staleInstruction id)
  | some instruction =>
    instruction.operands.forM fun operand => do
      if (← get).objects.contains operand then releaseWith delete operand
    modify fun builder => { builder with instructions := builder.instructions.erase id }

end

def freeObject (id : ObjectId) : Build Unit :=
  modify fun builder => { builder with objects := builder.objects.erase id }

/-- Removes an object whatever its count; `bound` limits the depth. -/
def deleteUpTo : (bound : Nat) → ObjectId → Build Unit
  | 0, _ => pure ()
  | bound + 1, id => do
    match (← object id).kind with
    | .register _ => freeObject id
    | .immediate _ =>
      modify fun builder => { builder with immediates := builder.immediates.filter (·.2 ≠ id) }
      freeObject id
    | .memory operand =>
      releaseWith (deleteUpTo bound) operand.base
      if let some index := operand.index? then
        releaseWith (deleteUpTo bound) index
      freeObject id
    | .block block =>
      unlink id
      freeObject id
      modify fun builder =>
        if builder.entryBlock? = some id then { builder with entryBlock? := none } else builder
      block.instructions.forM (deleteInstWith (deleteUpTo bound))

/-- Removes an object whatever its count. -/
def deleteObject (id : ObjectId) : Build Unit := do
  deleteUpTo ((← get).objects.live + 1) id

/-- Drops a reference and removes the object with the last one. -/
def release (id : ObjectId) : Build Unit := releaseWith deleteObject id

/-- Removes an instruction; its slot is left as it is. -/
def deleteInst (id : InstId) : Build Unit := deleteInstWith deleteObject id

/-- Removes the instruction in a slot of a block, which stays empty until the
next compaction. -/
def removeInst (target : ObjectId) (slot : Nat) : Build Unit := do
  let before ← block target
  match before.slots[slot]?.join with
  | none => fail (.emptySlot slot)
  | some id =>
    modifyBlock target fun block =>
      { block with slots := block.slots.set slot none, requiresFixup := true }
    deleteInst id

/-- Removes the listed blocks, at most `bound` of them. -/
def clearBlocks : (bound : Nat) → Build Unit
  | 0 => pure ()
  | bound + 1 => do
    match (← get).first? with
    | none => pure ()
    | some first =>
      deleteObject first
      clearBlocks bound

/-- Drops the reference to a data slot. -/
def clearDataSlot (index : Nat) : Build Unit := do
  match (← get).dataSlot? index with
  | none => pure ()
  | some id =>
    modify fun builder => { builder with dataSlots := builder.dataSlots.set index none }
    release id

/-- Removes everything. -/
def clear : Build Unit := do
  clearBlocks (← get).objects.live
  (List.range maxDataSlots).forM clearDataSlot
  modify fun builder =>
    { builder with
      objects := builder.objects.clear
      instructions := builder.instructions.clear
      immediates := [] }

end Build

end Shading
