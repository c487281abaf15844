import Shading.Lowering.Expression

/-!
# Lowering statements
-/

namespace Shading

namespace Lower

variable (symbols : SymbolTable)

/-- Offset of the member that receives the result. -/
def resultOffset? : Option Int32 :=
  match symbols.result? with
  | some id =>
    match (symbols.get id).kind with
    | .member offset _ => some (Int32.ofNat offset)
    | _ => none
  | none => none

/-- Writes the value of a return to the member that receives it. -/
def storeResult (label : Label) (value : Lowered) : Lower Unit := do
  match resultOffset? symbols with
  | none => throw (.missingResult label.span)
  | some offset =>
    let value ← value.expression
    let memory ← memberOperand offset
    emitStore memory value

def returnStatement (label : Label) (value? : Option Lowered) : Lower Unit := do
  forSome value? (storeResult symbols label)
  emit (.scalar .ret) []
  terminate

/-- Gives a local its first value. -/
def firstValue (dst : ObjectId) (initializer : Lowered) : Lower Unit := do
  let value ← initializer.expression
  emitMove dst value

def declaration (symbol : SymbolId) (initializer? : Option Lowered) : Lower Unit := do
  let dst ← build (Build.newRegisterFor (symbols.get symbol).type)
  modify fun state => { state with locals := (symbol, dst) :: state.locals }
  forSome initializer? (firstValue dst)

/-- One arm of a branch; control goes on behind it in the next one. -/
def arm (join : ObjectId) (arm : Lowered) : Lower Unit := do
  match arm.arm? with
  | none => unsupported .malformedBranch arm.node.span
  | some (none, body) => body
  | some (some condition, body) =>
    let value ← condition
    let taken ← build Build.newBlock
    let next ← build Build.newBlock
    branch value taken next
    fill taken body
    jumpIfOpen join
    pass next

def branchStatement (arms : List Lowered) : Lower Unit := do
  let join ← build Build.newBlock
  arms.forM (arm join)
  pass join

def newBlockIf {α : Type} (part? : Option α) : Lower (Option ObjectId) := do
  match part? with
  | some _ => return some (← build Build.newBlock)
  | none => return none

/-! ## Loops -/

/-- Blocks of a loop: the test of its condition, its body, its step and what
comes after it. -/
structure LoopBlocks where
  test? : Option ObjectId
  entry : ObjectId
  step? : Option ObjectId
  exit : ObjectId

namespace LoopBlocks

/-- Where a round ends. -/
def latch (blocks : LoopBlocks) : ObjectId := blocks.test?.getD blocks.entry

def targets (blocks : LoopBlocks) : LoopTargets := ⟨blocks.exit, blocks.step?.getD blocks.latch⟩

end LoopBlocks

def newLoopBlocks (condition? step? : Option Lowered) : Lower LoopBlocks := do
  let test? ← newBlockIf condition?
  let entry ← build Build.newBlock
  let step? ← newBlockIf step?
  let exit ← build Build.newBlock
  return ⟨test?, entry, step?, exit⟩

/-- Evaluates a condition and goes into the loop or leaves it. -/
def testCondition (condition : Lowered) (blocks : LoopBlocks) : Lower Unit := do
  let value ← condition.expression
  branch value blocks.entry blocks.exit

/-- The test before the first round, if there is one. -/
def testFirst (kind : LoopKind) (condition? : Option Lowered) (blocks : LoopBlocks) : Lower Unit := do
  match kind.isPretest, blocks.test?, condition? with
  | true, some test, some condition =>
    pass test
    testCondition condition blocks
  | _, _, _ => return ()

/-- The step between two rounds. -/
def stepRound (step? : Option Lowered) (blocks : LoopBlocks) : Lower Unit := do
  match blocks.step?, step? with
  | some block, some step => fill block (discard step.expression)
  | _, _ => return ()

/-- The end of a round: the test, if it comes last, or a jump back. -/
def endRound (kind : LoopKind) (condition? : Option Lowered) (blocks : LoopBlocks) : Lower Unit := do
  match kind.isPretest, blocks.test?, condition? with
  | false, some test, some condition => fill test (testCondition condition blocks)
  | _, _, _ => jumpIfOpen blocks.latch

/-- Code in which `break` and `continue` go to the blocks of a loop. -/
def inLoop (blocks : LoopBlocks) (action : Lower Unit) : Lower Unit := do
  modify fun state => { state with loops := blocks.targets :: state.loops }
  action
  modify fun state => { state with loops := state.loops.tail }

def loop (kind : LoopKind) (init? condition? step? : Option Lowered) (body : Lowered) :
    Lower Unit := do
  forSome init? (·.statement)
  let blocks ← newLoopBlocks condition? step?
  testFirst kind condition? blocks
  inLoop blocks do
    fill blocks.entry body.statement
    stepRound step? blocks
  endRound kind condition? blocks
  pass blocks.exit

/-! ## Statements -/

/-- `break` or `continue`. -/
def jumpStatement (label : Label) (target : LoopTargets → ObjectId) : Lower Unit := do
  match (← get).loops with
  | [] => unsupported .strayJump label.span
  | targets :: _ => jump (target targets)

/-- A node whose value is not used. -/
def statement (label : Label) (form : Form Lowered) : Lower Unit :=
  match form with
  | .block statements => statements.forM (·.statement)
  | .branch arms => branchStatement arms
  | .loop kind init? condition? step? body => loop kind init? condition? step? body
  | .breakLoop => jumpStatement label (·.breakTo)
  | .continueLoop => jumpStatement label (·.continueTo)
  | .returnValue value? => returnStatement symbols label value?
  | .declare symbol initializer? => declaration symbols symbol initializer?
  | .program _ | .function .. | .arm .. => unsupported .nestedFunction label.span
  | _ => discard (expression symbols label form)

/-- How a node is lowered, given how its children are. -/
def lowerForm (label : Label) (form : Form (Node × Lowered)) : Lowered :=
  let children := form.map Prod.snd
  { node := .mk label (form.map Prod.fst)
    expression := expression symbols label children
    statement := statement symbols label children
    arm? := match children with
      | .arm condition? body => some (condition?.map (·.expression), body.statement)
      | _ => none }

end Lower

/-- The function that is lowered: its node, parameters and body. -/
def Program.entryFunction? (program : Program) : Option (Node × List SymbolId × Node) :=
  program.functions.findSome? fun function =>
    match function.form with
    | .function symbol parameters body =>
      if (program.symbols.get symbol).name = entryName then some (function, parameters, body) else none
    | _ => none

/-- Lowers the body of the entry function into the entry block and those
behind it. -/
def Lower.entryBody (symbols : SymbolTable) (body : Node) : Lower Unit := do
  (body.fold (lowerForm symbols)).statement
  if !(← isTerminated) then emit (.scalar .ret) []

/-- Lowers `main`.  Data slot 0 holds the address of the layout. -/
def Program.lowering (program : Program) (limit? : Option Nat) : Except LoweringError LoweringState := do
  match program.entryFunction? with
  | none => throw .missingMain
  | some (function, parameters, body) =>
    if !parameters.isEmpty then
      throw (.unsupported .entryParameters function.span)
    else
      let builder ← (Builder.create 1 limit?).mapError .ir
      match Build.initEntry.run.run builder with
      | (.error error, _) => throw (.ir error)
      | (.ok entry, builder) =>
        match builder.dataSlot? 0 with
        | none => throw (.ir (.invalidState .missingDataSlot))
        | some base =>
          let start : LoweringState := ⟨builder, base, entry, false, [], []⟩
          let (_, state) ← (Lower.entryBody program.symbols body).run start
          return state

/-- The code that lowering leaves. -/
def Program.lower (program : Program) (limit? : Option Nat) : Except LoweringError Builder :=
  (program.lowering limit?).map (·.builder)

end Shading
