import Shading.Operator
import Shading.Symbol
import Shading.Value

/-!
# Forms of syntax nodes

`Form α` is what a node of the syntax tree says, with an `α` in the place of
each child.  `Form.children` lists the children in the order they are
evaluated; all traversals use this order.
-/

namespace Shading

inductive LoopKind where
  | forLoop
  | whileLoop
  | doWhile
deriving DecidableEq

namespace LoopKind

def name : LoopKind → String
  | .forLoop => "For"
  | .whileLoop => "While"
  | .doWhile => "DoWhile"

/-- Whether the condition is checked before the first round. -/
def isPretest : LoopKind → Bool
  | .forLoop | .whileLoop => true
  | .doWhile => false

end LoopKind

inductive Form (α : Type) where
  | program (functions : List α)
  | function (symbol : SymbolId) (parameters : List SymbolId) (body : α)
  | block (statements : List α)
  /-- A chain of `if`, `else if` and `else`. -/
  | branch (arms : List α)
  /-- One arm of a branch; an `else` has no condition. -/
  | arm (condition? : Option α) (body : α)
  /-- A loop without condition runs until it is left. -/
  | loop (kind : LoopKind) (init? condition? step? : Option α) (body : α)
  | breakLoop
  | continueLoop
  | returnValue (value? : Option α)
  | declare (symbol : SymbolId) (initializer? : Option α)
  /-- Selection of vector lanes, `object.field`. -/
  | swizzle (object : α) (field : String)
  | var (symbol : SymbolId)
  | immediate (value : Value)
  | unary (op : UnaryOp) (operand : α)
  | binary (op : BinaryOp) (lhs rhs : α)
  | call (callee : SymbolId) (arguments : List α)
deriving DecidableEq

namespace Form

variable {α β γ : Type}

/-- The statement that does nothing. -/
def empty : Form α := block []

/-- Children in the order they are evaluated. -/
def children : Form α → List α
  | .program functions => functions
  | .function _ _ body => [body]
  | .block statements => statements
  | .branch arms => arms
  | .arm condition? body => condition?.toList ++ [body]
  | .loop _ init? condition? step? body =>
    init?.toList ++ condition?.toList ++ [body] ++ step?.toList
  | .breakLoop | .continueLoop => []
  | .returnValue value? => value?.toList
  | .declare _ initializer? => initializer?.toList
  | .swizzle object _ => [object]
  | .var _ | .immediate _ => []
  | .unary _ operand => [operand]
  | .binary _ lhs rhs => [lhs, rhs]
  | .call _ arguments => arguments

def map (f : α → β) : Form α → Form β
  | .program functions => .program (functions.map f)
  | .function symbol parameters body => .function symbol parameters (f body)
  | .block statements => .block (statements.map f)
  | .branch arms => .branch (arms.map f)
  | .arm condition? body => .arm (condition?.map f) (f body)
  | .loop kind init? condition? step? body =>
    .loop kind (init?.map f) (condition?.map f) (step?.map f) (f body)
  | .breakLoop => .breakLoop
  | .continueLoop => .continueLoop
  | .returnValue value? => .returnValue (value?.map f)
  | .declare symbol initializer? => .declare symbol (initializer?.map f)
  | .swizzle object field => .swizzle (f object) field
  | .var symbol => .var symbol
  | .immediate value => .immediate value
  | .unary op operand => .unary op (f operand)
  | .binary op lhs rhs => .binary op (f lhs) (f rhs)
  | .call callee arguments => .call callee (arguments.map f)

/-- Replaces the children in the order of `children`. -/
def mapM {m : Type → Type} [Monad m] (f : α → m β) : Form α → m (Form β)
  | .program functions => return .program (← functions.mapM f)
  | .function symbol parameters body => return .function symbol parameters (← f body)
  | .block statements => return .block (← statements.mapM f)
  | .branch arms => return .branch (← arms.mapM f)
  | .arm condition? body => do
    let condition? ← condition?.mapM f
    return .arm condition? (← f body)
  | .loop kind init? condition? step? body => do
    let init? ← init?.mapM f
    let condition? ← condition?.mapM f
    let body ← f body
    return .loop kind init? condition? (← step?.mapM f) body
  | .breakLoop => return .breakLoop
  | .continueLoop => return .continueLoop
  | .returnValue value? => return .returnValue (← value?.mapM f)
  | .declare symbol initializer? => return .declare symbol (← initializer?.mapM f)
  | .swizzle object field => return .swizzle (← f object) field
  | .var symbol => return .var symbol
  | .immediate value => return .immediate value
  | .unary op operand => return .unary op (← f operand)
  | .binary op lhs rhs => do
    let lhs ← f lhs
    return .binary op lhs (← f rhs)
  | .call callee arguments => return .call callee (← arguments.mapM f)

/-- Sum of a measure over the children. -/
def sum (f : α → Nat) (form : Form α) : Nat := form.children.foldr (fun child n => f child + n) 0

/-- The value of a literal. -/
def immediate? : Form α → Option Value
  | .immediate value => some value
  | _ => none

/-- Truth value of a literal condition. -/
def literalCondition? (form : Form α) : Option Bool := form.immediate?.bind Value.toBool?

/-- Whether the form is the statement that does nothing. -/
def isEmpty : Form α → Bool
  | .block [] => true
  | _ => false

/-- Whether the form yields a value. -/
def isExpression : Form α → Bool
  | .swizzle .. | .var _ | .immediate _ | .unary .. | .binary .. | .call .. => true
  | _ => false

/-! ## Lemmas -/

theorem children_map (f : α → β) (form : Form α) : (form.map f).children = form.children.map f := by
  cases form with
  | arm condition? body => cases condition? <;> simp [map, children]
  | loop kind init? condition? step? body =>
    cases init? <;> cases condition? <;> cases step? <;> simp [map, children]
  | returnValue value? => cases value? <;> simp [map, children]
  | declare symbol initializer? => cases initializer? <;> simp [map, children]
  | _ => simp [map, children]

theorem sum_map (f : α → β) (g : β → Nat) (form : Form α) :
    (form.map f).sum g = form.sum fun child => g (f child) := by
  rw [sum, sum, children_map, List.foldr_map]

theorem le_foldr_of_mem (f : α → Nat) {children : List α} {child : α} (h : child ∈ children) :
    f child ≤ children.foldr (fun child n => f child + n) 0 := by
  induction children with
  | nil => simp at h
  | cons first rest ih =>
    rw [List.foldr_cons]
    rcases List.mem_cons.mp h with rfl | h
    · omega
    · have := ih h
      omega

theorem le_sum_of_mem (f : α → Nat) {form : Form α} {child : α} (h : child ∈ form.children) :
    f child ≤ form.sum f :=
  le_foldr_of_mem f h

theorem map_map (f : α → β) (g : β → γ) (form : Form α) :
    (form.map f).map g = form.map fun child => g (f child) := by
  cases form <;> simp [map, Function.comp_def]

theorem map_congr {f g : α → β} {form : Form α} (h : ∀ child ∈ form.children, f child = g child) :
    form.map f = form.map g := by
  cases form with
  | arm condition? body => cases condition? <;> simp_all [map, children]
  | loop kind init? condition? step? body =>
    cases init? <;> cases condition? <;> cases step? <;> simp_all [map, children]
  | returnValue value? => cases value? <;> simp_all [map, children]
  | declare symbol initializer? => cases initializer? <;> simp_all [map, children]
  | _ => simp_all [map, children]

theorem map_id (form : Form α) : form.map (fun child => child) = form := by
  cases form <;> simp [map]

end Form

end Shading
