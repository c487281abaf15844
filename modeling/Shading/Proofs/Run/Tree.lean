import Shading.Proofs.Run.Store
import Shading.Tree.Node

/-!
# Running a tree

`Node.value` evaluates an expression: operands from left to right, the right
operand of `&&` and `||` only if the left one does not decide.  `Node.run` runs
a statement.  Only loops can go on forever, so a run is given a number of
rounds, and a loop that needs more of them has no result.

* `Node.Finishes`: what a function body leaves, for some number of rounds.
* `Node.Diverges`: there is no result for any number of rounds.
-/

namespace Shading

/-- How a statement ends. -/
inductive Completion where
  | normal
  | breaks
  | continues
  | returns (value? : Option Value)
deriving DecidableEq

/-- The value a function returns. -/
def Completion.result? : Completion → Option Value
  | .returns value? => value?
  | _ => none

/-- The value of an expression and the state behind it. -/
abbrev EvaluatorOf (σ : Type) := σ → Value × σ

/-- How a statement ends and the state behind it, if the rounds suffice. -/
abbrev RunnerOf (σ : Type) := (rounds : Nat) → σ → Option (Completion × σ)

abbrev Evaluator := EvaluatorOf Store

abbrev Runner := RunnerOf Store

/-- What a node does as an expression, as a statement and as an arm of a
branch. -/
structure Meaning where
  value : Evaluator
  run : Runner
  arm? : Option (Option Evaluator × Runner)

namespace Meaning

/-! ## Statements -/

section

variable {σ : Type}

/-- Runs statements in order until one does not end normally. -/
def sequence : List (RunnerOf σ) → RunnerOf σ
  | [], _, store => some (.normal, store)
  | first :: rest, rounds, store =>
    match first rounds store with
    | some (.normal, store) => sequence rest rounds store
    | result => result

/-- Runs the first arm whose condition holds. -/
def choose : List (Option (EvaluatorOf σ) × RunnerOf σ) → RunnerOf σ
  | [], _, store => some (.normal, store)
  | (none, body) :: _, rounds, store => body rounds store
  | (some cond, body) :: rest, rounds, store =>
    let (value, store) := cond store
    if value.isTrue then body rounds store else choose rest rounds store

/-- Whether a loop goes on. -/
def test (cond? : Option (EvaluatorOf σ)) (store : σ) : Bool × σ :=
  match cond? with
  | some cond =>
    let (value, store) := cond store
    (value.isTrue, store)
  | none => (true, store)

/-- What happens between the body of a loop and its next test. -/
def advance (step? : Option (EvaluatorOf σ)) (store : σ) : σ :=
  match step? with
  | some step => (step store).2
  | none => store

/-- Rounds of a loop, each a body, a step and a test. -/
def repeated (body : RunnerOf σ) (cond? step? : Option (EvaluatorOf σ)) : RunnerOf σ
  | 0, _ => none
  | rounds + 1, store =>
    match body rounds store with
    | some (.normal, store) | some (.continues, store) =>
      let (goesOn, store) := test cond? (advance step? store)
      if goesOn then repeated body cond? step? rounds store else some (.normal, store)
    | some (.breaks, store) => some (.normal, store)
    | some (.returns value?, store) => some (.returns value?, store)
    | none => none

/-- A loop behind its start. -/
def loop (kind : LoopKind) (cond? step? : Option (EvaluatorOf σ)) (body : RunnerOf σ) : RunnerOf σ :=
  fun rounds store =>
    if kind.isPretest then
      let (goesOn, store) := test cond? store
      if goesOn then repeated body cond? step? rounds store else some (.normal, store)
    else
      repeated body cond? step? rounds store

end

/-! ## Expressions -/

/-- Values of expressions from left to right. -/
def values : List Evaluator → Store → List Value × Store
  | [], store => ([], store)
  | first :: rest, store =>
    let (value, store) := first store
    let (others, store) := values rest store
    (value :: others, store)

variable (interp : Interpretation) (table : SymbolTable)

def assign (target : Node) (value : Evaluator) : Evaluator := fun store =>
  let (value, store) := value store
  match target.form with
  | .var sym => (value, store.write table sym value)
  | _ => (value, store)

/-- `++` and `--`. -/
def step (op : UnaryOp) (operand : Node) : Evaluator := fun store =>
  match operand.form with
  | .var sym =>
    let old := store.read table sym
    let new := op.applyStep old
    (if op.isPreStep then new else old, store.write table sym new)
  | _ => (.int 0, store)

def unary (label : Label) (op : UnaryOp) (operand : Node) (value : Evaluator) : Evaluator := fun store =>
  if op.isStep then
    step table op operand store
  else
    let (value, store) := value store
    (op.apply value label.type, store)

def binary (op : BinaryOp) (lhs : Node) (left right : Evaluator) : Evaluator := fun store =>
  match op with
  | .assign => assign table lhs right store
  | .and =>
    let (a, store) := left store
    if a.isTrue then right store else (.bool false, store)
  | .or =>
    let (a, store) := left store
    if a.isTrue then (.bool true, store) else right store
  | _ =>
    let (a, store) := left store
    let (b, store) := right store
    (interp.binary op a b, store)

/-- Intrinsics compute; a function of the program does what the interpretation
says. -/
def call (label : Label) (callee : SymbolId) (args : List Evaluator) : Evaluator := fun store =>
  let (args, store) := values args store
  match (table.get callee).kind with
  | .intrinsic f => ((f.evaluate args).getD (.int 0), store)
  | _ =>
    let (word, memory) := interp.call callee args store.memory
    (.ofWord label.type word, { store with memory })

def expression (label : Label) (form : Form (Node × Meaning)) : Evaluator :=
  match form with
  | .immediate value => fun store => (value, store)
  | .var sym => fun store => (store.read table sym, store)
  | .unary op operand => unary table label op operand.1 operand.2.value
  | .binary op lhs rhs => binary interp table op lhs.1 lhs.2.value rhs.2.value
  | .call callee args => call interp table label callee (args.map (·.2.value))
  | .swizzle object field => fun store =>
    let (value, store) := object.2.value store
    (interp.lanes field value, store)
  | _ => fun store => (.int 0, store)

/-- An initializer sets its cell; without one the cell stays as it is. -/
def declaration (sym : SymbolId) (initializer? : Option Evaluator) : Runner := fun _ store =>
  match initializer? with
  | some initializer =>
    let (value, store) := initializer store
    some (.normal, store.write table sym value)
  | none => some (.normal, store)

def returnStatement (value? : Option Evaluator) : Runner := fun _ store =>
  match value? with
  | some value =>
    let (value, store) := value store
    some (.returns (some value), store)
  | none => some (.returns none, store)

def statement (label : Label) (form : Form (Node × Meaning)) : Runner :=
  match form with
  | .block stmts => sequence (stmts.map (·.2.run))
  | .branch arms => choose (arms.filterMap (·.2.arm?))
  | .loop kind init? cond? step? body =>
    sequence [sequence (init?.toList.map (·.2.run)),
      loop kind (cond?.map (·.2.value)) (step?.map (·.2.value)) body.2.run]
  | .breakLoop => fun _ store => some (.breaks, store)
  | .continueLoop => fun _ store => some (.continues, store)
  | .returnValue value? => returnStatement (value?.map (·.2.value))
  | .declare sym initializer? => declaration table sym (initializer?.map (·.2.value))
  | form => fun _ store => some (.normal, (expression interp table label form store).2)

/-- What a node does, given what its children do. -/
def ofForm (label : Label) (form : Form (Node × Meaning)) : Meaning where
  value := expression interp table label form
  run := statement interp table label form
  arm? := match form with
    | .arm cond? body => some (cond?.map (·.2.value), body.2.run)
    | _ => none

end Meaning

namespace Node

variable (interp : Interpretation) (table : SymbolTable)

def meaning (node : Node) : Meaning := node.fold (Meaning.ofForm interp table)

def value (node : Node) : Evaluator := (node.meaning interp table).value

def run (node : Node) : Runner := (node.meaning interp table).run

lemma meaning_mk (lbl : Label) (form : Form Node) : (mk lbl form).meaning interp table =
      .ofForm interp table lbl (form.map fun kid => (kid, kid.meaning interp table)) := by
  rw [meaning, fold_mk]
  rfl

/-- A function body ends with some memory and returned value. -/
def Finishes (body : Node) (store : Store) (memory : Memory) (value? : Option Value) : Prop :=
  ∃ rounds completion last, body.run interp table rounds store = some (completion, last) ∧
    last.memory = memory ∧ completion.result? = value?

def Diverges (body : Node) (store : Store) : Prop :=
  ∀ rounds, body.run interp table rounds store = none

end Node

end Shading
