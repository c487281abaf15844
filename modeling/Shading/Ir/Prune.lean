import Shading.Ir.Teardown

/-!
# Pruning instructions

A pure instruction that writes a register which nothing else refers to is
dead.  Removing it drops its references, which can make others dead, so blocks
are swept until nothing is removed.
-/

namespace Shading

/-- Whether only the instruction itself refers to the register it writes. -/
def Builder.isDead (builder : Builder) (id : InstId) : Bool :=
  match builder.instruction? id with
  | some ⟨opcode, target :: others⟩ =>
    match builder.object? target with
    | some ⟨.register _, refs⟩ =>
      opcode.code.isPure && refs = (target :: others).count target
    | _ => false
  | _ => false

namespace Build

/-- Removes the instruction in a slot if it is dead; gives the number removed. -/
def pruneSlot (target : ObjectId) (slot : Nat) (id? : Option InstId) : Build Nat := do
  match id? with
  | none => return 0
  | some id =>
    if (← get).isDead id then
      removeInst target slot
      return 1
    else
      return 0

def sumM {α : Type} (f : α → Build Nat) : List α → Build Nat
  | [] => return 0
  | a :: rest => do
    let n ← f a
    return n + (← sumM f rest)

/-- Prunes a block from its end, so that users go before what they use. -/
def pruneBlock (target : ObjectId) : Build Nat := do
  match (← get).block? target with
  | none => return 0
  | some block => sumM (fun (id?, slot) => pruneSlot target slot id?) block.slots.zipIdx.reverse

def pruneBlocks : Build Nat := do sumM pruneBlock (← get).blocks

/-- Prunes until nothing is removed, at most `bound` times. -/
def pruneUpTo : (bound : Nat) → Build Nat
  | 0 => return 0
  | bound + 1 => do
    let removed ← pruneBlocks
    if removed = 0 then return 0 else return removed + (← pruneUpTo bound)

/-- Removes dead instructions and compacts the blocks; gives the number of
instructions removed. -/
def prune : Build Nat := do
  let removed ← pruneUpTo ((← get).instructions.live + 1)
  fixupBlocks
  return removed

end Build

/-- Removes dead instructions; gives their number too. -/
def Builder.prune (builder : Builder) : Except IrError (Nat × Builder) :=
  match Build.prune.run.run builder with
  | (.ok removed, builder) => .ok (removed, builder)
  | (.error error, _) => .error error

end Shading
