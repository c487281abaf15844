import Shading.Proofs.Tree.Scope
import Shading.Simplify.Program

/-!
# What a visit can do

`Visits` relates a typed tree, and what is known before it, to the simplified
tree and what is known behind it, up to labels, or if nothing is folded up to
numbers.  Each constructor is one thing the pass can do; all properties of the pass are shown by induction over it.
-/

namespace Shading

/-- What the pass knows at some point. -/
structure Facts where
  constants : List (SymbolId × Value)
  loops : List LoopExits
  unreachable : Bool

namespace Facts

variable (facts : Facts)

def lookup (sym : SymbolId) : Option Value := facts.constants.lookup sym

def forget (sym : SymbolId) : Facts :=
  { facts with constants := facts.constants.filter (·.1 ≠ sym) }

def forgetAll (names : List SymbolId) : Facts := names.foldl forget facts

def remember (sym : SymbolId) (value : Value) : Facts :=
  { facts with constants := (sym, value) :: (facts.forget sym).constants }

/-- An assignment, which may run or not. -/
def record (env : SimplifyEnv) (conditional : Bool) (sym : SymbolId) (value? : Option Value) : Facts :=
  match value? with
  | some value =>
    if env.options.fold && !conditional && (env.symbols.get sym).isLocal then facts.remember sym value
    else facts.forget sym
  | none => facts.forget sym

def setUnreachable (unreachable : Bool) : Facts := { facts with unreachable }

def openLoop : Facts := { facts with loops := ⟨false, false⟩ :: facts.loops, unreachable := false }

def exits : LoopExits := facts.loops.head?.getD ⟨false, false⟩

def closeLoop : Facts := { facts with loops := facts.loops.tail }

end Facts

/-! ## Rules on trees -/

/-- A literal. -/
def Node.ofValue (value : Value) : Node := .mk ⟨⟨0⟩, none, value.type, .empty⟩ (.immediate value)

/-- The statement that does nothing. -/
def Node.nothing : Node := .mk ⟨⟨0⟩, none, .void, .empty⟩ .empty

/-- A value after its implicit conversion, if there is one. -/
def Node.coerced? (env : SimplifyEnv) (node : Node) (target : ValueType) : Option Node :=
  match coercion env.options.fold node.operand target with
  | .keep => some node
  | .literal value => some (.ofValue value)
  | .cast => some (.mk { node.label with type := target } (.unary .cast node))
  | .refuse => none

/-- What becomes of an operation. -/
def Reduction.result (node lhs rhs : Node) : Reduction → Node
  | .keep => node
  | .literal value => .ofValue value
  | .operand .left => lhs
  | .operand .right => rhs

/-- An arm whose condition was visited and whose body was not. -/
structure HalfArm where
  label : Label
  condition? : Option Node
  body : Node

def HalfArm.isDefault (arm : HalfArm) : Bool :=
  arm.condition?.all fun cond => cond.literalCondition? = some true

/-- What a loop that never runs leaves. -/
def Node.onlyInit (label : Label) : Option Node → Node
  | some init => .mk label (.block [init])
  | none => .nothing

/-- Symbols written in a round of a loop. -/
def roundAssigned (cond? step? : Option Node) (body : Node) : List SymbolId :=
  (cond?.toList ++ step?.toList ++ [body]).flatMap (·.assigned .read)

/-! ## Visits -/

mutual

/-- A node, what is known before it, what is known behind it, and what becomes
of it. -/
inductive Visits (env : SimplifyEnv) : Surroundings → Facts → Node → Facts → Node → Prop
  | relabel {outer before after node visited other}
      (visit : Visits env outer before node after visited) (alike : visited.Near env.options.fold other) :
      Visits env outer before node after other
  | immediate {outer facts label value} :
      Visits env outer facts (.mk label (.immediate value)) facts (.mk label (.immediate value))
  | var {outer facts label sym} :
      Visits env outer facts (.mk label (.var sym)) facts (.mk label (.var sym))
  | known {outer facts label sym value}
      (fold : env.options.fold = true) (known : facts.lookup sym = some value) :
      Visits env outer facts (.mk label (.var sym)) facts (.ofValue value)
  | swizzle {outer before after label obj visited field}
      (visit : Visits env outer.nested before obj after visited) :
      Visits env outer before (.mk label (.swizzle obj field)) after (.mk label (.swizzle visited field))
  | step {outer facts label op operand sym}
      (isStep : op.isStep = true) (isVar : operand.form = .var sym) :
      Visits env outer facts (.mk label (.unary op operand)) (facts.forget sym) (.mk label (.unary op operand))
  | foldStep {outer facts label op operand sym value updated}
      (isStep : op.isStep = true) (isVar : operand.form = .var sym)
      (fold : env.options.fold = true) (place : op.isPreStep = true ∨ outer.place = .statement)
      (known : facts.lookup sym = some value) (stepped : stepped? op value = some updated) :
      Visits env outer facts (.mk label (.unary op operand))
        (facts.record env outer.conditional sym (some updated))
        (.mk label (.binary .assign operand (.ofValue updated)))
  | unary {outer before after label op operand visited}
      (isStep : op.isStep = false) (visit : Visits env outer.nested before operand after visited) :
      Visits env outer before (.mk label (.unary op operand)) after (.mk label (.unary op visited))
  | cancel {outer before after label op inner operand visited innermost} (isStep : op.isStep = false)
      (visit : Visits env outer.nested before operand after visited)
      (isUnary : visited.form = .unary inner innermost) (cancels : env.options.fold = true ∧
        op.cancels inner = true) :
      Visits env outer before (.mk label (.unary op operand)) after innermost
  | foldUnary {outer before after label op operand visited result} (isStep : op.isStep = false)
      (visit : Visits env outer.nested before operand after visited)
      (folds : env.options.fold = true ∧ op.evaluate? visited.immediate? label.type = some result) :
      Visits env outer before (.mk label (.unary op operand)) after (.ofValue result)
  | operation {outer before mid after label op lhs rhs left right reduction}
      (isAssign : op.operatorClass ≠ .assignment) (isLogical : op.operatorClass ≠ .logical)
      (visitLeft : Visits env outer.nested before lhs mid left)
      (visitRight : Visits env outer.nested mid rhs after right)
      (reduces : op.reduction env.options.fold label.type left.operand right.operand = .ok reduction) :
      Visits env outer before (.mk label (.binary op lhs rhs)) after
        (reduction.result (.mk label (.binary op left right)) left right)
  | logical {outer before mid after label op lhs rhs left right reduction}
      (isLogical : op.operatorClass = .logical) (visitLeft : Visits env outer.nested before lhs mid left)
      (visitRight : Visits env outer.sometimes mid rhs after right)
      (reduces : reduction = .keep ∨ env.options.fold = true ∧
        reduction = logicalReduction op left.literalCondition? right.literalCondition? (left.isPure env.symbols)) :
      Visits env outer before (.mk label (.binary op lhs rhs)) after
        (reduction.result (.mk label (.binary op left right)) left right)
  | assign {outer before after label target value visited coerced sym} (isVar : target.form = .var sym)
      (visit : Visits env outer.nested before value after visited)
      (coerces : visited.coerced? env (env.symbols.get sym).type = some coerced) :
      Visits env outer before (.mk label (.binary .assign target value))
        (after.record env outer.conditional sym coerced.immediate?)
        (.mk label (.binary .assign target coerced))
  | call {outer before after label callee args visited coerced types}
      (visit : VisitsAll env outer.nested before args after visited)
      (checks : parameterTypes (env.symbols.get callee) (visited.map (·.type)) = .ok types)
      (coerces : (visited.zip types).mapM (fun argument => argument.1.coerced? env argument.2) = some coerced) :
      Visits env outer before (.mk label (.call callee args)) after
        (.mk { label with type := checkedCallType (env.symbols.get callee) (visited.map (·.type)) label.type }
          (.call callee coerced))
  | foldCall {outer before after label callee args visited coerced types result}
      (visit : VisitsAll env outer.nested before args after visited)
      (checks : parameterTypes (env.symbols.get callee) (visited.map (·.type)) = .ok types)
      (coerces : (visited.zip types).mapM (fun argument => argument.1.coerced? env argument.2) = some coerced)
      (folds : env.options.fold = true ∧ evaluateCall? (env.symbols.get callee) (coerced.map (·.immediate?)) =
        some result) :
      Visits env outer before (.mk label (.call callee args)) after (.ofValue result)
  | declare {outer facts label sym} :
      Visits env outer facts (.mk label (.declare sym none)) (facts.forget sym)
        (.mk label (.declare sym none))
  | define {outer before after label sym value visited coerced}
      (visit : Visits env outer.nested before value after visited)
      (coerces : visited.coerced? env (env.symbols.get sym).type = some coerced) :
      Visits env outer before (.mk label (.declare sym (some value)))
        (after.record env false sym coerced.immediate?) (.mk label (.declare sym (some coerced)))
  | returnNothing {outer facts label fn}
      (inFunction : outer.function? = some fn) (isVoid : (env.symbols.get fn).type.isVoid = true) :
      Visits env outer facts (.mk label (.returnValue none)) (facts.setUnreachable true)
        (.mk label (.returnValue none))
  | returnValue {outer before after label fn value visited coerced} (inFunction : outer.function? = some fn)
      (isVoid : (env.symbols.get fn).type.isVoid = false)
      (visit : Visits env outer.nested before value after visited)
      (coerces : visited.coerced? env (env.symbols.get fn).type = some coerced) :
      Visits env outer before (.mk label (.returnValue (some value))) (after.setUnreachable true)
        (.mk label (.returnValue (some coerced)))
  | breakLoop {outer facts label exits rest}
      (loops : facts.loops = exits :: rest) :
      Visits env outer facts (.mk label .breakLoop)
        { facts with loops := { exits with breaks := true } :: rest, unreachable := true } (.mk label .breakLoop)
  | continueLoop {outer facts label exits rest} (loops : facts.loops = exits :: rest) :
      Visits env outer facts (.mk label .continueLoop)
        { facts with loops := { exits with continues := true } :: rest, unreachable := true }
        (.mk label .continueLoop)
  | block {outer before after label stmts kept declared} (visit : VisitsStatements env outer.statement before
      stmts after kept declared) : Visits env outer before (.mk label (.block stmts))
        (if outer.place = .functionBody then after else after.forgetAll declared) (.mk label (.block kept))
  | branch {outer before mid after label arms visited halves unreachable}
      (visitConditions : VisitsConditions env outer false before arms mid halves)
      (visitBodies : VisitsBodies env outer false true mid halves after visited unreachable) :
      Visits env outer before (.mk label (.branch arms)) (after.setUnreachable unreachable)
        (.mk label (.branch visited))
  | noArm {outer before after label arms}
      (fold : env.options.fold = true) (visitConditions : VisitsConditions env outer false before arms after []) :
      Visits env outer before (.mk label (.branch arms)) after .nothing
  | onlyArm {outer before mid after label armLabel arms body visited} (fold : env.options.fold = true)
      (visitConditions : VisitsConditions env outer false before arms mid [⟨armLabel, none, body⟩])
      (visitBody : Visits env outer mid body after visited) :
      Visits env outer before (.mk label (.branch arms)) after visited
  | removeLoop {outer before mid after label kind init? step? cond body visited visitedInit?}
      (visitInit : VisitsAll env outer.nested before init?.toList mid visitedInit?.toList)
      (visitCondition : Visits env outer.sometimes (mid.forgetAll (roundAssigned (some cond) step? body))
        cond after visited)
      (fold : env.options.fold = true) (isFalse : visited.literalCondition? = some false)
      (isPretest : kind.isPretest = true) :
      Visits env outer before (.mk label (.loop kind init? (some cond) step? body)) after
        (.onlyInit label visitedInit?)
  | loop {outer before afterInit afterCondition afterBody after label kind init? cond? step? body visitedBody
      visitedInit? visitedCondition? kept? visitedStep?}
      (visitInit : VisitsAll env outer.nested before init?.toList afterInit visitedInit?.toList)
      (visitCondition : VisitsAll env outer.sometimes (afterInit.forgetAll (roundAssigned cond? step? body))
        cond?.toList afterCondition visitedCondition?.toList)
      (keeps : kept? = visitedCondition? ∨
        env.options.fold = true ∧ kept? = none ∧ visitedCondition?.all (fun cond => cond.literalCondition? =
          some true) = true)
      (visitBody : Visits env outer.sometimes afterCondition.openLoop body afterBody visitedBody)
      (visitStep : VisitsAll env { outer.sometimes with place := .statement } (afterBody.setUnreachable false)
        step?.toList after visitedStep?.toList) :
      Visits env outer before (.mk label (.loop kind init? cond? step? body)) (after.closeLoop.setUnreachable
          (kind.neverEnds (kept?.all fun cond => cond.literalCondition? = some true)
            afterBody.unreachable after.exits))
        (.mk label (.loop kind visitedInit? kept? visitedStep? visitedBody))

/-- Nodes visited one after another. -/
inductive VisitsAll (env : SimplifyEnv) : Surroundings → Facts → List Node → Facts → List Node → Prop
  | nil {outer facts} : VisitsAll env outer facts [] facts []
  | cons {outer before mid after node visited rest others}
      (visit : Visits env outer before node mid visited) (visitRest : VisitsAll env outer mid rest after others) :
      VisitsAll env outer before (node :: rest) after (visited :: others)

/-- The statements of a block: those kept and the symbols declared. -/
inductive VisitsStatements (env : SimplifyEnv) :
    Surroundings → Facts → List Node → Facts → List Node → List SymbolId → Prop
  | nil {outer facts} : VisitsStatements env outer facts [] facts [] []
  | unreachable {outer facts nodes} (unreachable : facts.unreachable = true) :
      VisitsStatements env outer facts nodes facts [] []
  | drop {outer before mid after node visited rest kept declared} (reachable : before.unreachable = false)
      (visit : Visits env outer before node mid visited) (isEmpty : env.options.fold = true ∧
        visited.form.isEmpty = true)
      (visitRest : VisitsStatements env outer mid rest after kept declared) :
      VisitsStatements env outer before (node :: rest) after kept declared
  | keep {outer before mid after node visited rest kept declared} (reachable : before.unreachable = false)
      (visit : Visits env outer before node mid visited)
      (visitRest : VisitsStatements env outer mid rest after kept declared) :
      VisitsStatements env outer before (node :: rest) after (visited :: kept) (visited.exports ++ declared)

/-- The conditions of a branch.  The flag says that some condition before these
is not known. -/
inductive VisitsConditions (env : SimplifyEnv) :
    Surroundings → Bool → Facts → List Node → Facts → List HalfArm → Prop
  | nil {outer dynamic facts} :
      VisitsConditions env outer dynamic facts [] facts []
  | otherwise {outer dynamic facts label body rest} :
      VisitsConditions env outer dynamic facts (.mk label (.arm none body) :: rest) facts [⟨label, none, body⟩]
  | never {outer dynamic before mid after label cond visited body rest halves}
      (visit : Visits env { outer.nested with conditional := outer.conditional || dynamic } before cond
        mid visited)
      (isFalse : env.options.fold = true ∧ visited.literalCondition? = some false)
      (visitRest : VisitsConditions env outer dynamic mid rest after halves) :
      VisitsConditions env outer dynamic before (.mk label (.arm (some cond) body) :: rest) after halves
  | always {outer dynamic before after label cond visited body rest}
      (visit : Visits env { outer.nested with conditional := outer.conditional || dynamic } before cond
        after visited)
      (isTrue : env.options.fold = true ∧ visited.literalCondition? = some true) :
      VisitsConditions env outer dynamic before (.mk label (.arm (some cond) body) :: rest) after
        [⟨label, none, body⟩]
  | sometimes {outer dynamic before mid after label cond visited body rest halves}
      (visit : Visits env { outer.nested with conditional := outer.conditional || dynamic } before cond
        mid visited)
      (visitRest : VisitsConditions env outer true mid rest after halves) :
      VisitsConditions env outer dynamic before (.mk label (.arm (some cond) body) :: rest) after
        (⟨label, some visited, body⟩ :: halves)

/-- The bodies of a branch: whether a default was seen, whether all bodies up
to it end what is reachable, and in the end whether control never gets past. -/
inductive VisitsBodies (env : SimplifyEnv) :
    Surroundings → Bool → Bool → Facts → List HalfArm → Facts → List Node → Bool → Prop
  | nil {outer hasDefault allUnreachable facts} :
      VisitsBodies env outer hasDefault allUnreachable facts [] facts [] (hasDefault && allUnreachable)
  | cons {outer hasDefault allUnreachable result before mid after arm visited rest others}
      (visit : Visits env outer.sometimes (before.setUnreachable false) arm.body mid visited)
      (visitRest : VisitsBodies env outer (hasDefault || arm.isDefault)
        (if hasDefault then allUnreachable else allUnreachable && mid.unreachable) mid rest after others result) :
      VisitsBodies env outer hasDefault allUnreachable before (arm :: rest) after
        (.mk arm.label (.arm arm.condition? visited) :: others) result

end

end Shading
