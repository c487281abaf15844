import Mathlib.Logic.Function.Basic
import Shading.Fold
import Shading.Simplify.Rule
import Shading.Symbol

/-!
# Stores

Every variable is a cell that holds a word.  The type of its symbol says what
the word means: a number, or a truth value, which is false for 0.  Members of
the layout are cells of the memory, found by their offset; locals have cells of
their own.

`Value.ofWord_word` says that a value comes back from the cell it was put in.
-/

namespace Shading

/-- The words of a layout, by offset. -/
abbrev Memory := Int32 → Int32

namespace Value

/-- The word that stands for a value in a cell or register. -/
def word (value : Value) : Int32 := value.bits.toUInt32.toInt32

/-- What a word means in a cell of a type. -/
def ofWord (type : ValueType) (word : Int32) : Value :=
  if type = .bool then .bool (word ≠ 0) else .int word

def isTrue (value : Value) : Bool := value = .bool true

@[simp] lemma word_int (n : Int32) : (Value.int n).word = n := by
  simp [word, bits]

@[simp] lemma word_bool (b : Bool) : (Value.bool b).word = if b then 1 else 0 := by
  cases b <;> rfl

@[simp] lemma type_int (n : Int32) : (Value.int n).type = .int := rfl

@[simp] lemma type_bool (b : Bool) : (Value.bool b).type = .bool := rfl

@[simp] lemma isTrue_bool (b : Bool) : (Value.bool b).isTrue = b := by
  cases b <;> rfl

lemma eq_int_of_type {val : Value} (h : val.type = .int) : ∃ n, val = .int n := by
  cases val with
  | int n => exact ⟨n, rfl⟩
  | bool b => exact absurd h (by rw [type_bool]; decide)
  | float x | double x =>
    exact absurd (congrArg ValueType.base h) (by simp [type, base, ValueType.scalar, ValueType.int])

lemma eq_bool_of_type {val : Value} (h : val.type = .bool) : ∃ b, val = .bool b := by
  cases val with
  | bool b => exact ⟨b, rfl⟩
  | int n => exact absurd h (by rw [type_int]; decide)
  | float x | double x =>
    exact absurd (congrArg ValueType.base h) (by simp [type, base, ValueType.scalar, ValueType.bool])

@[simp] lemma ofWord_int (word : Int32) : ofWord .int word = .int word := by
  rw [ofWord, if_neg (by decide)]

@[simp] lemma ofWord_bool (word : Int32) : ofWord .bool word = .bool (word ≠ 0) := by
  rw [ofWord, if_pos rfl]

end Value

/-- The types of numbers and truth values that fit in a word. -/
def ValueType.IsWord (type : ValueType) : Prop := type = .int ∨ type = .bool

instance (type : ValueType) : Decidable type.IsWord := inferInstanceAs (Decidable (_ ∨ _))

namespace Value

lemma type_ofWord {type : ValueType} (h : type.IsWord) (word : Int32) : (ofWord type word).type = type := by
  rcases h with rfl | rfl
  · rw [ofWord_int, type_int]
  · rw [ofWord_bool, type_bool]

/-- A value comes back from its word. -/
lemma ofWord_word {val : Value} {type : ValueType} (hw : type.IsWord) (h : val.type = type) :
    ofWord type val.word = val := by
  rcases hw with rfl | rfl
  · obtain ⟨n, rfl⟩ := eq_int_of_type h
    rw [word_int, ofWord_int]
  · obtain ⟨b, rfl⟩ := eq_bool_of_type h
    rw [word_bool, ofWord_bool]
    cases b <;> simp

end Value

/-! ## Cells -/

structure Store where
  memory : Memory
  locals : SymbolId → Int32

namespace Store

variable (table : SymbolTable)

/-- The word in the cell of a symbol. -/
def cell (store : Store) (id : SymbolId) : Int32 :=
  match (table.get id).kind with
  | .member offset _ => store.memory (Int32.ofNat offset)
  | _ => store.locals id

def read (store : Store) (id : SymbolId) : Value :=
  .ofWord (table.get id).type (store.cell table id)

def write (store : Store) (id : SymbolId) (value : Value) : Store :=
  match (table.get id).kind with
  | .member offset _ =>
    { store with memory := Function.update store.memory (Int32.ofNat offset) value.word }
  | _ => { store with locals := Function.update store.locals id value.word }

end Store

/-! ## What the language leaves open -/

structure Interpretation where
  /-- The result of an integer division by zero. -/
  byZero : BinaryOp → Int32 → Int32
  /-- The word that a function of the program returns, and what it leaves in memory. -/
  call : SymbolId → List Value → Memory → Int32 × Memory
  /-- The lanes of a vector that a swizzle names. -/
  lanes : String → Value → Value

namespace Interpretation

variable (interp : Interpretation)

/-- The value of an operation that evaluates both operands. -/
def binary (op : BinaryOp) (a b : Value) : Value :=
  match op.fold a b with
  | .ok result => result
  | .error _ => .int (interp.byZero op a.word)

end Interpretation

/-- The value of an operator that changes nothing. -/
def UnaryOp.apply (op : UnaryOp) (value : Value) (type : ValueType) : Value :=
  (op.fold value type).toOption.getD value

/-- The value that `++` or `--` leaves behind. -/
def UnaryOp.applyStep (op : UnaryOp) (value : Value) : Value := (stepped? op value).getD value

/-- `++` adds one and `--` takes one away. -/
lemma UnaryOp.applyStep_int (op : UnaryOp) (n : Int32) :
    op.applyStep (.int n) = .int (if op.isIncrement then n + 1 else n - 1) := by
  cases op <;> rfl

end Shading
