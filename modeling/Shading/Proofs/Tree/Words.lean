import Shading.Proofs.Run.Store
import Shading.Proofs.Tree.Typing

/-!
# Trees over words

`Node.Words` says that every expression below a node is a number or a truth
value of one word.  Only a call of a function can have no value.
-/

namespace Shading

/-- Types of the parameters of a function. -/
def Symbol.signatureTypes (sym : Symbol) : List ValueType :=
  match sym.kind with
  | .function signature => signature.parameters
  | _ => []

/-- The symbol that is called. -/
def Form.callee? {α : Type} : Form α → Option SymbolId
  | .call callee _ => some callee
  | _ => none

@[simp] lemma Form.callee?_map {α β : Type} (f : α → β) (form : Form α) :
    (form.map f).callee? = form.callee? := by
  cases form <;> rfl

namespace Node

def WordRule (table : SymbolTable) (node : Node) : Prop :=
  (node.form.isExpression = true → node.type.IsWord ∨ node.form.callee?.isSome = true ∧ node.type = .void) ∧
    ∀ callee ∈ node.form.callee?.toList, ∀ type ∈ (table.get callee).signatureTypes, type.IsWord

instance (tbl : SymbolTable) (node : Node) : Decidable (WordRule tbl node) :=
  inferInstanceAs (Decidable (_ ∧ _))

/-- Every expression below the node is a number or a truth value. -/
def Words (table : SymbolTable) (node : Node) : Prop := node.Everywhere (WordRule table)

instance (tbl : SymbolTable) (node : Node) : Decidable (node.Words tbl) :=
  inferInstanceAs (Decidable (∀ inner ∈ node.preorder, WordRule tbl inner))

variable {tbl : SymbolTable}

lemma words_mk {lbl : Label} {form : Form Node} : (mk lbl form).Words tbl ↔
      WordRule tbl (mk lbl form) ∧ ∀ kid ∈ form.children, kid.Words tbl :=
  everywhere_mk

lemma wordRule_erase (node : Node) : WordRule tbl node.erase ↔ WordRule tbl node := by
  simp only [WordRule, form_erase, type_erase, Form.isExpression_map, Form.callee?_map]

lemma Words.of_alike {a b : Node} (h : a.Words tbl) (hab : a.Alike b) : b.Words tbl :=
  Everywhere.of_alike h hab wordRule_erase

lemma Words.child {node inner : Node} (h : node.Words tbl) (hi : inner ∈ node.form.children) : inner.Words tbl :=
  Everywhere.child h hi

/-- An expression is a word unless it is a call. -/
lemma Words.isWord {node : Node} (h : node.Words tbl) (he : node.form.isExpression = true)
    (hv : node.type.isVoid = false) : node.type.IsWord := by
  rcases (Everywhere.here h).1 he with hw | ⟨-, hvoid⟩
  · exact hw
  · rw [hvoid] at hv
    cases hv

/-- The value of an operation is a word. -/
lemma Words.isWord_of_callee? {lbl : Label} {form : Form Node} (h : (mk lbl form).Words tbl)
    (he : form.isExpression = true) (hc : form.callee? = none) : lbl.type.IsWord := by
  refine ((Everywhere.here h).1 he).resolve_right fun hcall => ?_
  rw [form_mk, hc] at hcall
  cases hcall.1

/-- A value of one word converts to no other one. -/
lemma eq_of_convertsTo {src tgt : ValueType} (hs : src.IsWord) (ht : tgt.IsWord)
    (h : src.convertsTo tgt = true) : src = tgt := by
  rcases hs with rfl | rfl <;> rcases ht with rfl | rfl <;> first | rfl | cases h

end Node

end Shading
