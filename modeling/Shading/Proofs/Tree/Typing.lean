import Shading.Parse.Expression
import Shading.Proofs.Tree.Alike
import Shading.Simplify.Rule

/-!
# Typed trees

`Node.Typed` says that every node below has children of the kinds and types its
form asks for, as the parser makes them.  `Node.Checked` says the same of what
the parser leaves open and the simplifier checks: arguments have the types of
the parameters and returns fit their function.
-/

namespace Shading

open List

variable {tbl : SymbolTable} {form : Form Node} {node : Node} {lbl : Label} {type res : ValueType}
  {a b part : Node}

namespace ValueType

/-- A type that can be written. -/
def Valid (type : ValueType) : Prop :=
  1 ≤ type.lanes ∧ type.lanes ≤ maxLanes ∧ (type.isVoid → type.lanes = 1)

instance (type : ValueType) : Decidable type.Valid := inferInstanceAs (Decidable (_ ∧ _ ∧ _))

lemma valid_scalar (base : Base) : (scalar base).Valid :=
  ⟨Nat.le_refl 1, (by decide : 1 ≤ maxLanes), fun _ => rfl⟩

lemma Valid.withBase (h : type.Valid) {base : Base} (hb : base ≠ .void) : (type.withBase base).Valid := by
  refine ⟨h.1, h.2.1, fun hv => ?_⟩
  exact absurd (of_decide_eq_true hv) hb

lemma promote_eq {a b common : ValueType} (h : a.promote b = some common) :
    (common = a ∨ common = b) ∧ common.base.isNumeric = true := by
  unfold promote at h
  split at h
  · cases h
  · split at h
    · rename_i hi hj
      rw [Option.some.injEq] at h
      split at h
      · exact ⟨.inl h.symm, by rw [← h, Base.isNumeric, hi]; rfl⟩
      · exact ⟨.inr h.symm, by rw [← h, Base.isNumeric, hj]; rfl⟩
    · cases h

end ValueType

/-! ## Forms -/

namespace Form

variable {α β : Type}

def var? : Form α → Option SymbolId
  | .var sym => some sym
  | _ => none

def isBlock : Form α → Bool
  | .block _ => true
  | _ => false

def isDeclare : Form α → Bool
  | .declare .. => true
  | _ => false

def isArm : Form α → Bool
  | .arm .. => true
  | _ => false

def isElse : Form α → Bool
  | .arm none _ => true
  | _ => false

/-- What can stand in a block. -/
def isStatement : Form α → Bool
  | .program _ | .function .. | .arm .. => false
  | _ => true

section

variable (f : α → β) (form : Form α)

@[simp] lemma var?_map : (form.map f).var? = form.var? := by
  cases form <;> rfl

@[simp] lemma isBlock_map : (form.map f).isBlock = form.isBlock := by
  cases form <;> rfl

@[simp] lemma isDeclare_map : (form.map f).isDeclare = form.isDeclare := by
  cases form <;> rfl

@[simp] lemma isArm_map : (form.map f).isArm = form.isArm := by
  cases form <;> rfl

@[simp] lemma isElse_map : (form.map f).isElse = form.isElse := by
  cases form with
  | arm cond? body => cases cond? <;> rfl
  | _ => rfl

@[simp] lemma isStatement_map : (form.map f).isStatement = form.isStatement := by
  cases form <;> rfl

end

variable {form : Form α}

lemma eq_var_of_var? {sym : SymbolId} (h : form.var? = some sym) : form = .var sym := by
  cases form <;> simp_all [var?]

/-- A variable that can be written. -/
def IsTarget (table : SymbolTable) (form : Form α) : Prop :=
  ∃ sym, form.var? = some sym ∧ (table.get sym).isWritable = true

@[simp] lemma isTarget_map (f : α → β) (form : Form α) : (form.map f).IsTarget tbl ↔ form.IsTarget tbl := by
  rw [IsTarget, IsTarget, var?_map]

lemma IsTarget.isSome (h : form.IsTarget tbl) : form.var?.isSome = true := by
  obtain ⟨sym, hsym, -⟩ := h
  rw [hsym]
  rfl

lemma eq_arm_of_isArm (h : form.isArm = true) : ∃ cond? body, form = .arm cond? body := by
  cases form with
  | arm cond? body => exact ⟨cond?, body, rfl⟩
  | _ => cases h

lemma eq_block_of_isBlock (h : form.isBlock = true) : ∃ stmts, form = .block stmts := by
  cases form with
  | block stmts => exact ⟨stmts, rfl⟩
  | _ => cases h

lemma eq_declare_of_isDeclare (h : form.isDeclare = true) :
    ∃ sym ini?, form = .declare sym ini? := by
  cases form with
  | declare sym ini? => exact ⟨sym, ini?, rfl⟩
  | _ => cases h

lemma isArm_of_isExpression (h : form.isExpression = true) : form.isArm = false := by
  cases form <;> first | rfl | cases h

lemma isStatement_of_isExpression (h : form.isExpression = true) : form.isStatement = true := by
  cases form <;> first | rfl | cases h

end Form

/-! ## Operators -/

/-- Types of the operand and the result of an operator. -/
def UnaryOp.Takes (op : UnaryOp) (operand result : ValueType) : Prop :=
  match op with
  | .cast => operand.castsTo result = true
  | _ => Parser.acceptsBase op operand.base = true ∧ result = operand

/-- Types of the operands, which is the same for both, and of the result. -/
def BinaryOp.Takes (op : BinaryOp) (operand result : ValueType) : Prop :=
  match op.operatorClass with
  | .assignment => result = operand
  | .arithmetic => operand.base.isNumeric = true ∧ (op = .mod → operand.base = .int) ∧ result = operand
  | .bitwise => (operand.base = .int ∨ operand.base = .bool) ∧ result = operand
  | .shift => operand.base = .int ∧ result = operand
  | .comparison =>
    (operand.base.isNumeric = true ∨ op.isEquality = true ∧ operand.base = .bool) ∧
      result = operand.withBase .bool
  | .logical => operand = .bool ∧ result = .bool

/-! ## Trees -/

namespace Node

/-- A scalar truth value. -/
def IsCondition (node : Node) : Prop := node.form.isExpression = true ∧ node.type = .bool

/-- What a loop can start with. -/
def IsInit (node : Node) : Prop :=
  match node.form with
  | .block stmts => ∀ statement ∈ stmts, statement.form.isDeclare = true
  | .declare .. => True
  | form => form.isExpression = true

lemma isInit_iff : node.IsInit ↔
    (∃ stmts, node.form = .block stmts ∧ ∀ statement ∈ stmts, statement.form.isDeclare = true) ∨
      node.form.isDeclare = true ∨ node.form.isExpression = true := by
  rw [IsInit]
  cases node.form <;> simp [Form.isDeclare, Form.isExpression]

lemma IsInit.expression (h : node.form.isExpression = true) : node.IsInit := isInit_iff.mpr (.inr (.inr h))

/-- What the form of a node asks of its children and its type. -/
def FormRule (table : SymbolTable) (type : ValueType) : Form Node → Prop
  | .program _ | .function .. => False
  | .block stmts => ∀ statement ∈ stmts, statement.form.isStatement = true
  | .branch arms =>
    (∀ arm ∈ arms, arm.form.isArm = true) ∧ ∀ arm ∈ arms.dropLast, arm.form.isElse = false
  | .arm cond? body => (∀ cond ∈ cond?, cond.IsCondition) ∧ body.form.isBlock = true
  | .loop _ init? cond? step? body =>
    (∀ init ∈ init?, init.IsInit) ∧ (∀ cond ∈ cond?, cond.IsCondition) ∧
      (∀ step ∈ step?, step.form.isExpression = true) ∧ body.form.isBlock = true
  | .breakLoop | .continueLoop => True
  | .returnValue value? => ∀ value ∈ value?, value.form.isExpression = true
  | .declare sym initializer? =>
    (table.get sym).kind = .localVariable ∧ (table.get sym).type.isVoid = false ∧ (table.get sym).type.Valid ∧
      ∀ initializer ∈ initializer?,
        initializer.form.isExpression = true ∧ initializer.type = (table.get sym).type
  | .swizzle obj _ => obj.form.isExpression = true ∧ obj.type.isVector = true
  | .var sym =>
    (table.get sym).isVariable = true ∧ type.isVoid = false ∧ type = (table.get sym).type
  | .immediate value => type = value.type
  | .unary op operand =>
    operand.form.isExpression = true ∧ (op.isStep = true → operand.form.IsTarget table) ∧
      op.Takes operand.type type
  | .binary op lhs rhs =>
    lhs.form.isExpression = true ∧ rhs.form.isExpression = true ∧
      (op = .assign → lhs.form.IsTarget table) ∧ lhs.type = rhs.type ∧ op.Takes lhs.type type
  | .call callee args =>
    (∀ argument ∈ args, argument.form.isExpression = true) ∧
      Parser.callType? (table.get callee) (args.map (·.type)) = some type

def TypeRule (table : SymbolTable) (node : Node) : Prop :=
  node.type.Valid ∧ FormRule table node.type node.form

/-- The tree below the node is as the parser makes it. -/
def Typed (table : SymbolTable) (node : Node) : Prop := node.Everywhere (TypeRule table)

/-- What the simplifier checks, in a function with results of type `result`. -/
def CheckRule (table : SymbolTable) (result : ValueType) (node : Node) : Prop :=
  match node.form with
  | .returnValue value? => value?.isSome = !result.isVoid ∧ ∀ value ∈ value?, value.type = result
  | .call callee args =>
    parameterTypes (table.get callee) (args.map (·.type)) = .ok (args.map (·.type))
  | _ => True

/-- The tree below the node is as the simplifier leaves it. -/
def Checked (table : SymbolTable) (result : ValueType) (node : Node) : Prop :=
  node.Everywhere (CheckRule table result)

/-! ## Labels do not matter -/

lemma isCondition_erase (node : Node) : node.erase.IsCondition ↔ node.IsCondition := by
  simp [IsCondition]

lemma isInit_erase (node : Node) : node.erase.IsInit ↔ node.IsInit := by
  obtain ⟨lbl, form⟩ := node
  rw [erase_mk, IsInit, IsInit]
  cases form <;> rw [Form.map] <;> simp [Form.isExpression]

lemma typeRule_erase (tbl : SymbolTable) (node : Node) : TypeRule tbl node.erase ↔ TypeRule tbl node := by
  obtain ⟨lbl, form⟩ := node
  rw [TypeRule, TypeRule, type_erase, form_erase, form_mk]
  refine and_congr_right fun _ => ?_
  cases form <;> rw [Form.map] <;>
    simp [FormRule, isCondition_erase, isInit_erase, ← map_dropLast, Function.comp_def]

lemma checkRule_erase (tbl : SymbolTable) (res : ValueType) (node : Node) :
    CheckRule tbl res node.erase ↔ CheckRule tbl res node := by
  obtain ⟨lbl, form⟩ := node
  rw [CheckRule, CheckRule, form_erase, form_mk]
  cases form <;> rw [Form.map] <;> simp [Function.comp_def]

lemma Typed.of_alike (h : a.Typed tbl) (hab : a.Alike b) : b.Typed tbl :=
  Everywhere.of_alike h hab (typeRule_erase tbl)

lemma Checked.of_alike (h : a.Checked tbl res) (hab : a.Alike b) : b.Checked tbl res :=
  Everywhere.of_alike h hab (checkRule_erase tbl res)

lemma typed_mk : (mk lbl form).Typed tbl ↔
      (lbl.type.Valid ∧ FormRule tbl lbl.type form) ∧ ∀ kid ∈ form.children, kid.Typed tbl :=
  everywhere_mk

lemma checked_mk : (mk lbl form).Checked tbl res ↔
      CheckRule tbl res (mk lbl form) ∧ ∀ kid ∈ form.children, kid.Checked tbl res :=
  everywhere_mk

lemma Typed.child (h : node.Typed tbl) {inner : Node} (hi : inner ∈ node.form.children) : inner.Typed tbl :=
  Everywhere.child h hi

lemma Typed.valid (h : node.Typed tbl) : node.type.Valid :=
  (Everywhere.here h).1

lemma Typed.rule (h : node.Typed tbl) : FormRule tbl node.type node.form :=
  (Everywhere.here h).2

/-! ## Induction -/

/-- Only branches have arms. -/
lemma not_isArm_of_formRule (h : FormRule tbl type form) (hbranch : ∀ arms, form ≠ .branch arms) {kid : Node}
    (hc : kid ∈ form.children) : kid.form.isArm = false := by
  have hexpr : kid.form.isExpression = true → kid.form.isArm = false := Form.isArm_of_isExpression
  have hstmt : kid.form.isStatement = true → kid.form.isArm = false := by
    cases kid.form <;> first | exact fun _ => rfl | exact nofun
  have hblk : kid.form.isBlock = true → kid.form.isArm = false := by
    cases kid.form <;> first | exact fun _ => rfl | exact nofun
  have hinit : kid.IsInit → kid.form.isArm = false := by
    rw [IsInit]
    cases kid.form <;> first | exact fun _ => rfl | exact nofun
  cases form with
  | program functions | function sym params body => exact h.elim
  | branch arms => exact absurd rfl (hbranch arms)
  | block stmts => exact hstmt (h kid hc)
  | arm cond? body =>
    rcases mem_append.mp hc with hc | hc
    · exact hexpr (h.1 kid (Option.mem_toList.mp hc)).1
    · obtain rfl := mem_singleton.mp hc
      exact hblk h.2
  | loop kind init? cond? step? body =>
    obtain ⟨hi, hcond, hstep, hb⟩ := h
    simp only [Form.children, mem_append, mem_singleton, Option.mem_toList] at hc
    rcases hc with ((hc | hc) | rfl) | hc
    · exact hinit (hi kid hc)
    · exact hexpr (hcond kid hc).1
    · exact hblk hb
    · exact hexpr (hstep kid hc)
  | returnValue value? => exact hexpr (h kid (Option.mem_toList.mp hc))
  | declare sym ini? => exact hexpr (h.2.2.2 kid (Option.mem_toList.mp hc)).1
  | swizzle obj field | unary op opd =>
    obtain rfl := mem_singleton.mp hc
    exact hexpr h.1
  | binary op lhs rhs =>
    simp only [Form.children, mem_cons, not_mem_nil, or_false] at hc
    rcases hc with rfl | rfl
    · exact hexpr h.1
    · exact hexpr h.2.1
  | call callee args => exact hexpr (h.1 kid hc)
  | breakLoop | continueLoop | var _ | immediate _ => cases hc

/-- What a form is made of: its children, or for a branch those of its arms. -/
def parts (form : Form Node) : List Node :=
  match form with
  | .branch arms => arms.flatMap (·.form.children)
  | form => form.children

lemma size_lt_of_mem_parts (h : part ∈ parts form) : part.size < (mk lbl form).size := by
  cases form with
  | branch arms =>
    obtain ⟨arm, ha, hp⟩ := mem_flatMap.mp h
    have harm : arm ∈ (mk lbl (.branch arms)).children := ha
    exact Nat.lt_trans (size_lt_of_mem_children hp) (size_lt_of_mem_children harm)
  | _ => exact size_lt_of_mem_children h

lemma Typed.of_mem_parts (ht : (mk lbl form).Typed tbl) (h : part ∈ parts form) :
    part.Typed tbl ∧ part.form.isArm = false := by
  obtain ⟨⟨-, hrule⟩, hkids⟩ := typed_mk.mp ht
  cases form with
  | branch arms =>
    obtain ⟨arm, ha, hp⟩ := mem_flatMap.mp h
    have harm := hkids arm ha
    refine ⟨harm.child hp, not_isArm_of_formRule harm.rule (fun arms heq => ?_) hp⟩
    have := hrule.1 arm ha
    rw [heq] at this
    cases this
  | _ => exact ⟨hkids part h, not_isArm_of_formRule hrule nofun h⟩

/-- Induction over typed trees.  Arms are not nodes of their own here. -/
lemma Typed.parts_induction {motive : Node → Prop}
    (mk : ∀ lbl form, (mk lbl form).Typed tbl → form.isArm = false → (∀ part ∈ parts form, motive part) →
      motive (mk lbl form))
    (node : Node) (ht : node.Typed tbl) (harm : node.form.isArm = false) : motive node := by
  match node with
  | .mk lbl form =>
    refine mk lbl form ht harm fun part hp => ?_
    have hpart := ht.of_mem_parts hp
    exact parts_induction mk part hpart.1 hpart.2
termination_by node.size
decreasing_by exact size_lt_of_mem_parts hp

end Node

end Shading
