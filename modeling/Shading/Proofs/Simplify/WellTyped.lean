import Shading.Proofs.Simplify.Pass
import Shading.Proofs.Simplify.Return

/-!
# Simplified programs are linked and fully typed

The tree of a program that was simplified is numbered and linked, and in every
function each node has the types its form asks for (`Node.TypesAgree`):
operands of an operation agree, and whatever is stored, returned or passed on
has the type of the place it goes to.
-/

namespace Shading

variable {res : ValueType} {tbl : SymbolTable} {node : Node}

/-- Types of the operands and of the result, once all conversions are
written out. -/
def BinaryOp.TypesAgree (op : BinaryOp) (lhs rhs result : ValueType) : Prop :=
  match op.operatorClass with
  | .assignment | .arithmetic | .bitwise | .shift => lhs = result ∧ rhs = result
  | .comparison => lhs = rhs ∧ result = lhs.withBase .bool
  | .logical => lhs = .bool ∧ rhs = .bool ∧ result = .bool

/-- Types of the arguments and of the result of a call. -/
def Symbol.AcceptsCall (callee : Symbol) (args : List ValueType) (result : ValueType) : Prop :=
  match callee.kind with
  | .function signature => args = signature.parameters ∧ result = signature.result
  | .intrinsic f => args.length = f.arity ∧ f.resolve args = some result ∧ ∀ type ∈ args, type = result
  | _ => False

namespace Node

/-- The types of a node and of its children agree, in a function with results
of type `result`. -/
def TypesAgree (table : SymbolTable) (result : ValueType) (node : Node) : Prop :=
  match node.form with
  | .program _ | .function .. => False
  | .block _ | .branch _ | .breakLoop | .continueLoop => True
  | .arm cond? _ | .loop _ _ cond? _ _ => ∀ cond ∈ cond?, cond.type = .bool
  | .returnValue value? => ∀ value ∈ value?, value.type = result
  | .declare sym initializer? => ∀ initializer ∈ initializer?, initializer.type = (table.get sym).type
  | .swizzle obj _ => obj.type.isVector = true
  | .var sym => node.type = (table.get sym).type
  | .immediate value => node.type = .scalar value.base
  | .unary op operand => op.Takes operand.type node.type
  | .binary .assign target value => ∃ sym, target.form = .var sym ∧
      target.type = (table.get sym).type ∧ value.type = (table.get sym).type ∧
      node.type = (table.get sym).type
  | .binary op lhs rhs => op.TypesAgree lhs.type rhs.type node.type
  | .call callee args => (table.get callee).AcceptsCall (args.map (·.type)) node.type

end Node

lemma BinaryOp.Takes.typesAgree {op : BinaryOp} {opd : ValueType} (h : op.Takes opd res) :
    op.TypesAgree opd opd res := by
  unfold Takes at h
  unfold TypesAgree
  cases hclass : op.operatorClass <;> simp only [hclass] at h ⊢
  · exact ⟨h.symm, h.symm⟩
  · exact ⟨h.2.2.symm, h.2.2.symm⟩
  · exact ⟨h.2.symm, h.2.symm⟩
  · exact ⟨h.2.symm, h.2.symm⟩
  · exact ⟨trivial, h.2⟩
  · exact ⟨h.1, h.1, h.2⟩

/-- A call that was read and checked. -/
lemma Symbol.acceptsCall_of_checked {callee : Symbol} {args : List ValueType}
    (htype : Parser.callType? callee args = some res) (hcheck : parameterTypes callee args = .ok args) :
    callee.AcceptsCall args res := by
  unfold Parser.callType? at htype
  unfold AcceptsCall
  rcases parameterTypes_eq_ok.mp hcheck with ⟨_, hkind, -, hargs⟩ | ⟨f, type, hkind, harity, hres, hargs⟩ <;>
    simp only [hkind] at htype ⊢
  · exact ⟨hargs, (Option.some.inj htype).symm⟩
  · rw [hres, Option.getD_some, Option.some.injEq] at htype
    subst htype
    refine ⟨harity.symm, hres, fun arg ha => ?_⟩
    rw [hargs] at ha
    obtain ⟨_, -, rfl⟩ := List.mem_map.mp ha
    rfl

namespace Node

lemma typesAgree_of_typed (ht : node.Typed tbl) (hc : CheckRule tbl res node) : node.TypesAgree tbl res := by
  obtain ⟨lbl, form⟩ := node
  have hrule : FormRule tbl lbl.type form := ht.rule
  rw [TypesAgree]
  cases form with
  | program functions | function sym params body => exact hrule
  | block stmts | branch arms | breakLoop | continueLoop => trivial
  | arm cond? body => exact fun cond hm => (hrule.1 cond hm).2
  | loop kind init? cond? step? body => exact fun cond hm => (hrule.2.1 cond hm).2
  | returnValue value? => exact hc.2
  | declare sym ini? => exact fun initializer hm => (hrule.2.2.2 initializer hm).2
  | swizzle obj field => exact hrule.2
  | var sym | unary op opd => exact hrule.2.2
  | immediate val => exact hrule
  | binary op lhs rhs =>
    obtain ⟨-, -, htgt, heq, htakes⟩ := hrule
    cases op with
    | assign =>
      obtain ⟨sym, hsym, -⟩ := htgt rfl
      have hform := Form.eq_var_of_var? hsym
      have htype : lhs.type = (tbl.get sym).type := by
        have hlhs := (ht.child (List.mem_cons_self .. : lhs ∈ [lhs, rhs])).rule
        rw [hform] at hlhs
        exact hlhs.2.2
      exact ⟨sym, hform, htype, heq.symm.trans htype, (show lbl.type = lhs.type from htakes).trans htype⟩
    | _ =>
      have hagree := htakes.typesAgree
      nth_rewrite 2 [heq] at hagree
      exact hagree
  | call callee args => exact Symbol.acceptsCall_of_checked hrule.2 hc

lemma everywhere_typesAgree (ht : node.Typed tbl)
    (hc : node.Checked tbl res) : node.Everywhere (TypesAgree tbl res) := by
  induction node with
  | mk lbl form ih =>
    exact everywhere_mk.mpr ⟨typesAgree_of_typed ht (Everywhere.here hc),
      fun kid hm => ih kid hm (ht.child hm) (Everywhere.child hc hm)⟩

/-- A program of functions whose types agree. -/
def IsTypedProgram (table : SymbolTable) (root : Node) : Prop :=
  ∃ functions, root.form = .program functions ∧ ∀ fn ∈ functions, ∃ sym params body,
    fn.form = .function sym params body ∧ body.form.isBlock = true ∧
      body.Everywhere (TypesAgree table (table.get sym).type)

end Node

/-- Simplifying leaves a tree in which every node is reached once, from the
node it belongs to, and in which all types agree. -/
theorem Program.fullyTyped_of_simplify {source : Source} {layout : Layout} {program : Program} {options : Options}
    {simplified : Simplified} (hl : layout.Built) (hparse : Program.parse source layout = .ok program)
    (hsimplify : program.simplify options = .ok simplified) :
    simplified.program.root.ids.Nodup ∧ simplified.program.root.parent? = none ∧ simplified.program.root.Linked ∧
      simplified.program.root.IsTypedProgram simplified.program.symbols := by
  have hread := Program.wellRead_of_parse hl hparse
  have hnumbered := hread.numbered.simplify hsimplify
  obtain ⟨hsymbols, ⟨functions, hroot⟩, -⟩ := Program.simplify_ok hread.typedFunction hread.isProgram hsimplify
  obtain ⟨-, hleft⟩ := Program.functionLeft_of_simplify hl hparse hsimplify
  refine ⟨hnumbered.nodup, hnumbered.isRoot, hnumbered.linked, functions, hroot, fun function hm => ?_⟩
  have hmember : function ∈ simplified.program.functions := by
    rw [Program.functions, Node.children, hroot]
    exact hm
  obtain ⟨symbol, parameters, body, hform, hbody⟩ := hleft function hmember
  rw [hsymbols]
  exact ⟨symbol, parameters, body, hform, hbody.isBlock, Node.everywhere_typesAgree hbody.typed hbody.checked⟩

/-- Operands, arguments and results that are converted, a step that becomes an
assignment, and a store that is never read. -/
def Source.conversions : Source := ⟨.memory, ("float same(float x) \x7b return x; \x7d " ++
  "int main() \x7b int i = 1; i++; float f = g; if (f < same(g) && true) \x7b " ++
  "g = i = 3; return min(g, 3); \x7d return i; \x7d").toList⟩

theorem Program.fullyTyped_of_simplify_conversions : ∃ program simplified,
    Program.parse .conversions .twoWords = .ok program ∧ program.simplify .standard = .ok simplified ∧
      simplified.program.functions.length = 2 ∧ simplified.program.root.ids.Nodup ∧
      simplified.program.root.parent? = none ∧ simplified.program.root.Linked ∧
      simplified.program.root.IsTypedProgram simplified.program.symbols := by
  obtain ⟨program, simplified, hparse, hsimplify, hlength⟩ :=
    Source.exists_of_simplifiesTo (by decide +kernel :
      Source.conversions.simplifiesTo .twoWords .standard
        (fun _ simplified => simplified.program.functions.length = 2) = true)
  exact ⟨program, simplified, hparse, hsimplify, of_decide_eq_true hlength,
    Program.fullyTyped_of_simplify Layout.built_twoWords hparse hsimplify⟩

end Shading
