import Shading.Proofs.Lowering.Ready
import Shading.Proofs.Simplify.Rule
import Shading.Proofs.Tree.Flow
import Shading.Proofs.Tree.Scope
import Shading.Proofs.Tree.Uses

/-!
# Code of expressions

The code of an expression is straight and leaves its value in a register of its
type (`Node.expression_emits`).  It makes only the accesses that the uses in the
expression allow.
-/

namespace Shading

open ValueType List

variable {res source tgt type : ValueType} {val : ObjectId} {op : UnaryOp} {node opd : Node} {code : InstCode}
  {tbl : SymbolTable} {acc : Accesses} {loose : Prop} {Γ : List SymbolId} {lbl : Label} {usage : Usage}
  {sym : SymbolId} {later : LoweringState} {dst left right : ObjectId} {sources : List ObjectId}

/-! ## Trees that can be lowered -/

/-- The accesses that a use makes are allowed. -/
def Use.Permitted (table : SymbolTable) (acc : Accesses) (use : Use) : Prop :=
  ∀ offset access, (table.get use.symbol).kind = .member offset access →
    ∀ width, AccessWidth.ofBytes? (table.get use.symbol).type.registerWidth = some width →
      (use.usage.reads = true → acc.reads (Int32.ofNat offset) width) ∧
        (use.usage.writes = true → acc.writes (Int32.ofNat offset) width)

namespace Node

variable {form : Form Node} {inner : Node}

/-- The accesses made below a node are allowed. -/
def Permitted (table : SymbolTable) (acc : Accesses) (usage : Usage) (node : Node) : Prop :=
  ∀ use ∈ node.uses usage, use.Permitted table acc

lemma permitted_all (node : Node) : node.Permitted tbl .all usage :=
  fun _ _ _ _ _ _ _ => ⟨fun _ => trivial, fun _ => trivial⟩

/-- A child that is neither a target nor stepped is read. -/
lemma Permitted.child (h : (mk lbl form).Permitted tbl acc usage) (hc : inner ∈ form.children)
    (hstep : ∀ op opd, form = .unary op opd → op.isStep = false)
    (hasg : ∀ lhs rhs, form ≠ .binary .assign lhs rhs) : inner.Permitted tbl acc .read := by
  refine fun use hu => h use (uses_subset_of_evaluated ?_ use hu)
  cases form with
  | unary op opd =>
    rw [Form.evaluated, hstep op opd rfl]
    exact hc
  | binary op lhs rhs =>
    cases op with
    | assign => exact absurd rfl (hasg lhs rhs)
    | _ => exact hc
  | _ => exact hc

lemma Permitted.assign {lhs rhs : Node} (h : (mk lbl (.binary .assign lhs rhs)).Permitted tbl acc usage) :
    lhs.Permitted tbl acc .write ∧ rhs.Permitted tbl acc .read := by
  refine ⟨fun use hu => h use ?_, fun use hu => h use (uses_subset_of_evaluated (.head _) use hu)⟩
  rw [uses_mk]
  exact mem_append_left _ hu

lemma Permitted.step (h : (mk lbl (.unary op opd)).Permitted tbl acc usage)
    (hs : op.isStep = true) : opd.Permitted tbl acc .readWrite := by
  intro use hu
  refine h use ?_
  rw [uses_mk, Form.map, formUses, if_pos hs]
  exact hu

lemma Permitted.var (h : node.Permitted tbl acc usage) (hform : node.form = .var sym) :
    Use.Permitted tbl acc ⟨sym, usage, node.span⟩ := by
  obtain ⟨lbl, form⟩ := node
  obtain rfl : form = .var sym := hform
  refine h _ ?_
  rw [uses_mk]
  exact mem_singleton_self _

/-- What lowering asks of a tree, in a function with results of type `result`. -/
structure Lowerable (table : SymbolTable) (accesses : Accesses) (unscoped : Prop) (result : ValueType)
    (scope : List SymbolId) (node : Node) : Prop where
  typed : node.Typed table
  checked : node.Checked table result
  permitted : node.Permitted table accesses .read
  inScope : unscoped ∨ node.Scoped table scope

section

variable (h : (Node.mk lbl form).Lowerable tbl acc loose res Γ) {scope' : List SymbolId}

include h

lemma Lowerable.child (he : form.isExpression = true)
    (hc : inner ∈ form.children) (hstep : ∀ op opd, form = .unary op opd → op.isStep = false)
    (hasg : ∀ lhs rhs, form ≠ .binary .assign lhs rhs) : inner.Lowerable tbl acc loose res Γ where
  typed := h.typed.child hc
  checked := (checked_mk.mp h.checked).2 inner hc
  permitted := h.permitted.child hc hstep hasg
  inScope := h.inScope.imp_right fun hs => hs.child_of_expression he hc

/-- A part of a statement. -/
lemma Lowerable.inside (he : form.isExpression = false) (hc : inner ∈ form.children) (hs : loose ∨ inner.Scoped tbl scope') :
    inner.Lowerable tbl acc loose res scope' where
  typed := h.typed.child hc
  checked := (checked_mk.mp h.checked).2 inner hc
  permitted := by
    refine h.permitted.child hc (fun op opd heq => ?_) fun lhs rhs heq => ?_
    · rw [heq] at he
      cases he
    · rw [heq] at he
      cases he
  inScope := hs

lemma Lowerable.part (he : form.isExpression = false) (hc : inner ∈ form.children)
    (hs : ScopeRule tbl Γ form → inner.Scoped tbl scope') : inner.Lowerable tbl acc loose res scope' :=
  h.inside he hc (h.inScope.imp_right fun hscoped => hs (scoped_mk.mp hscoped))

end

end Node

/-! ## States and code -/

namespace LoweringState

/-- Locals in scope have registers. -/
def Covers (unscoped : Prop) (scope : List SymbolId) (st : LoweringState) : Prop :=
  unscoped ∨ ∀ sym ∈ scope, (st.locals.lookup sym).isSome = true

lemma Covers.keeps {st : LoweringState} (h : st.Covers loose Γ)
    (hk : st.Keeps later) : later.Covers loose Γ := by
  rw [Covers, hk.locals]
  exact h

end LoweringState

namespace Lower

open Builder LoweringState

variable {g : Graph} {st : LoweringState}

/-! ## Operations -/

section

variable (h : st.Ready tbl acc false g)
include h

lemma compute_emits (hpure : code.isPure = true) (hcount : sources.length ≤ 2)
    (hsrcs : ∀ source ∈ sources, st.builder.IsValue source) :
    Emits tbl acc loose (compute code type sources) g st fun id ir => ir.IsRegister id type :=
  emitTo_emits h hpure hcount hsrcs

lemma computeTwo_emits
    (hpure : code.isPure = true) (hl : st.builder.IsValue left) (hr : st.builder.IsValue right) :
    Emits tbl acc loose (compute code type [left, right]) g st fun id ir => ir.IsRegister id type := by
  refine compute_emits h hpure (Nat.le_refl 2) fun source hm => ?_
  rcases mem_pair.mp hm with rfl | rfl
  · exact hl
  · exact hr

end

/-! ## Variables -/

section

variable {span : Span}

/-- A local that is in scope has a register. -/
lemma loadLocal_emits (h : st.Ready tbl acc false g) (hscope : loose ∨ (st.locals.lookup sym).isSome = true) :
    Emits tbl acc loose (loadLocal tbl sym span) g st fun id ir =>
      ir.IsRegister id (tbl.get sym).type := by
  refine .of_get ?_
  cases hlookup : st.locals.lookup sym with
  | none =>
    rw [hlookup] at hscope
    exact .throw (.undeclared _ _ (hscope.resolve_right Bool.false_ne_true))
  | some id =>
    obtain ⟨first, rest, heq, -⟩ := lookup_eq_some_iff.mp hlookup
    exact .pure h (h.locals (sym, id) (heq ▸ mem_append_right _ (.head _)))

/-- What it takes to use a variable. -/
structure Usable (table : SymbolTable) (accesses : Accesses) (unscoped : Prop) (usage : Usage) (symbol : SymbolId)
    (state : LoweringState) : Prop where
  isVariable : (table.get symbol).isVariable = true
  isVoid : (table.get symbol).type.isVoid = false
  valid : (table.get symbol).type.Valid
  permitted : ∀ span, Use.Permitted table accesses ⟨symbol, usage, span⟩
  inScope : unscoped ∨ ((table.get symbol).isLocal = true → (state.locals.lookup symbol).isSome = true)

lemma Usable.keeps (h : Usable tbl acc loose usage sym st) (hk : st.Keeps later) :
    Usable tbl acc loose usage sym later := ⟨h.isVariable, h.isVoid, h.valid, h.permitted,
      by rw [hk.locals]; exact h.inScope⟩

lemma memberOffset?_of_member {off : Nat} {access : Access} (h : (tbl.get sym).kind = .member off access) :
    memberOffset? tbl sym span = pure (some (Int32.ofNat off)) := by
  rw [memberOffset?, h]

lemma memberOffset?_of_isLocal (h : (tbl.get sym).isLocal = true) : memberOffset? tbl sym span = pure none := by
  unfold memberOffset?
  unfold Symbol.isLocal at h
  split at h
  · rename_i hk
    rw [hk]
  · rename_i hk
    rw [hk]
  · cases h

/-- A variable is a member of the layout or a local. -/
lemma member_or_local (h : (tbl.get sym).isVariable = true) :
    (∃ off access, (tbl.get sym).kind = .member off access) ∨ (tbl.get sym).isLocal = true := by
  unfold Symbol.isVariable at h
  unfold Symbol.isLocal
  cases hk : (tbl.get sym).kind with
  | member off access => exact .inl ⟨off, access, rfl⟩
  | localVariable | parameter => exact .inr rfl
  | _ =>
    rw [hk] at h
    cases h

lemma load_emits (h : st.Ready tbl acc false g) (hu : Usable tbl acc loose usage sym st)
    (hreads : usage.reads = true) : Emits tbl acc loose (load tbl sym span) g st fun id ir =>
      ir.IsRegister id (tbl.get sym).type := by
  unfold load
  rcases member_or_local hu.isVariable with ⟨off, access, hk⟩ | hlocal
  · rw [memberOffset?_of_member hk, pure_bind]
    refine (newRegister_emits h _).bind fun dst _ _ h₁ hk₁ hdst => (memberOperand_emits h₁ _).bind
      fun mem _ _ h₂ hk₂ hmem => ?_
    rw [← hk₂.base] at hmem
    refine (emitFetchMember_emits h₂ hu.valid hu.isVoid (hdst.grows hk₂.grows) hmem fun width hw =>
      (hu.permitted span off access hk width hw).1 hreads).bind fun _ _ _ h₃ hk₃ _ => .pure h₃ ?_
    exact hdst.grows (hk₂.grows.trans hk₃.grows)
  · rw [memberOffset?_of_isLocal hlocal, pure_bind]
    exact loadLocal_emits h (hu.inScope.imp_right fun hs => hs hlocal)

lemma store_emits (h : st.Ready tbl acc false g)
    (hu : Usable tbl acc loose usage sym st) (hwrites : usage.writes = true)
    (hval : st.builder.IsRegister val (tbl.get sym).type) :
    Emits tbl acc loose (store tbl sym span val) g st fun id ir =>
      ir.IsRegister id (tbl.get sym).type := by
  unfold store
  rcases member_or_local hu.isVariable with ⟨off, access, hk⟩ | hlocal
  · rw [memberOffset?_of_member hk, pure_bind]
    refine (memberOperand_emits h _).bind fun mem _ _ h₁ hk₁ hmem => ?_
    rw [← hk₁.base] at hmem
    refine (emitStore_emits h₁ hu.valid hu.isVoid hmem (hval.grows hk₁.grows) fun width hw =>
      (hu.permitted span off access hk width hw).2 hwrites).bind fun _ _ _ h₂ hk₂ _ => .pure h₂ ?_
    exact hval.grows (hk₁.grows.trans hk₂.grows)
  · rw [memberOffset?_of_isLocal hlocal, pure_bind]
    refine (loadLocal_emits h (hu.inScope.imp_right fun hs => hs hlocal)).bind fun dst _ _ h₁ hk₁ hdst => ?_
    refine (emitMove_emits h₁ hu.valid hu.isVoid hdst (hval.grows hk₁.grows) rfl).bind fun _ _ _ h₂ hk₂ _ => ?_
    exact .pure h₂ (hdst.grows hk₂.grows)

end

section

variable (h : st.Ready tbl acc false g)
include h

lemma immediate_emits {val : Value} (hv : type.Valid)
    (hvoid : type.isVoid = false) : Emits tbl acc loose (immediate val type) g st fun id ir =>
      ir.IsRegister id type := by
  refine (newRegister_emits h type).bind fun dst _ _ h₁ _ hdst => (newImmediate_emits h₁ val type).bind
    fun opd _ _ h₂ hk₂ hopd =>
    (emitFetchLiteral_emits h₂ hv hvoid (hdst.grows hk₂.grows) hopd).bind fun _ _ _ h₃ hk₃ _ => .pure h₃ ?_
  exact hdst.grows (hk₂.grows.trans hk₃.grows)

/-! ## Casts -/

variable (hval : st.builder.IsRegister val source)

include hval

lemma copy_emits (hwidth : source.registerWidth = tgt.registerWidth) (hv : tgt.Valid)
    (hvoid : tgt.isVoid = false) : Emits tbl acc loose (copy val tgt) g st fun id ir =>
      ir.IsRegister id tgt := by
  refine (newRegister_emits h tgt).bind fun dst _ _ h₁ hk₁ hdst =>
    (emitMove_emits h₁ hv hvoid hdst (hval.grows hk₁.grows) hwidth).bind fun _ _ _ h₂ hk₂ _ => .pure h₂ ?_
  exact hdst.grows hk₂.grows

lemma convert_emits (hcode : (convertCode? source.base tgt.base).isSome = true) :
    Emits tbl acc loose (convert val source tgt) g st fun id ir => ir.IsRegister id tgt := by
  obtain ⟨code, hcode⟩ := Option.isSome_iff_exists.mp hcode
  unfold convert
  rw [hcode]
  exact emitTo_emits h rfl (by simp) (by simpa using hval.isValue)

lemma compareToZero_emits {zero : Value} :
    Emits tbl acc loose (compareToZero val zero source tgt) g st fun id ir => ir.IsRegister id tgt := by
  refine (newImmediate_emits h zero _).bind fun opd mid _ h₁ hk₁ hopd => emitTo_emits h₁ rfl (by simp)
    fun source hm => ?_
  rcases mem_pair.mp hm with rfl | rfl
  · exact hval.isValue.grows hk₁.grows
  · exact hopd.isValue

lemma cast_emits (hcast : source.castsTo tgt = true) (hv : tgt.Valid) :
    Emits tbl acc loose (cast val source tgt) g st fun id ir => ir.IsRegister id tgt := by
  simp only [castsTo, Bool.and_eq_true, decide_eq_true_eq, Bool.not_eq_true'] at hcast
  obtain ⟨⟨hlanes, hs⟩, ht⟩ := hcast
  obtain ⟨base, lanes⟩ := source
  obtain ⟨base', lanes'⟩ := tgt
  obtain rfl : lanes = lanes' := hlanes
  -- Truth values are as wide as integers.
  have hwide : (⟨.bool, lanes⟩ : ValueType).registerWidth = (⟨.int, lanes⟩ : ValueType).registerWidth := by
    rw [registerWidth_eq, registerWidth_eq]
    rfl
  have hint : (⟨.int, lanes⟩ : ValueType).Valid := ⟨hv.1, hv.2.1, by simp [isVoid]⟩
  -- A truth value becomes an integer first.
  have hnum (tgt : Base) (hcode : (convertCode? .int tgt).isSome = true)
      (hval : st.builder.IsRegister val ⟨.bool, lanes⟩) : Emits tbl acc loose (do
        let val ← copy val ⟨.int, lanes⟩
        convert val ⟨.int, lanes⟩ ⟨tgt, lanes⟩) g st fun id ir => ir.IsRegister id ⟨tgt, lanes⟩ :=
    (copy_emits h hval hwide hint rfl).bind fun _ _ _ h₁ _ hcopy => convert_emits h₁ hcopy hcode
  unfold cast
  dsimp only
  split
  · rename_i heq
    subst heq
    exact .pure h hval
  · rename_i hne
    cases base with
    | void => cases hs
    | bool =>
      cases base' with
      | void => cases ht
      | bool => exact absurd rfl hne
      | int => exact copy_emits h hval hwide hint rfl
      | float => exact hnum .float rfl hval
      | double => exact hnum .double rfl hval
    | int | float | double =>
      cases base' with
      | void => cases ht
      | bool => exact compareToZero_emits h hval
      | _ => first | exact absurd rfl hne | exact convert_emits h hval rfl

end

/-! ## Operators -/

section

/-- What it takes to use a variable, from the node that names it. -/
lemma Usable.of_typed (ht : node.Typed tbl) (hform : node.form = .var sym)
    (hp : node.Permitted tbl acc usage) (hs : loose ∨ node.Scoped tbl Γ) (hc : st.Covers loose Γ) :
    Usable tbl acc loose usage sym st ∧ node.type = (tbl.get sym).type := by
  have hrule := ht.rule
  rw [hform] at hrule
  obtain ⟨hvariable, hvoid, htype⟩ := hrule
  refine ⟨⟨hvariable, htype ▸ hvoid, htype ▸ ht.valid, fun span => hp.var hform, ?_⟩, htype⟩
  rcases hs with hs | hs
  · exact .inl hs
  · refine hc.imp_right fun hcovers hlocal => hcovers sym ?_
    obtain ⟨lbl, form⟩ := node
    obtain rfl : form = .var sym := hform
    exact Node.scoped_mk.mp hs hlocal

/-- How the value of a child is computed. -/
def YieldsValue (table : SymbolTable) (acc : Accesses) (unscoped : Prop) (scope : List SymbolId)
    (action : Lower ObjectId) (type : ValueType) : Prop :=
  ∀ graph st, st.Ready table acc false graph → st.Covers unscoped scope →
    Emits table acc unscoped action graph st fun id ir => ir.IsRegister id type

section

variable (h : st.Ready tbl acc false g)
include h

/-- `++` and `--`. -/
lemma step_emits (hc : st.Covers loose Γ)
    (hn : (Node.mk lbl (.unary op opd)).Lowerable tbl acc loose res Γ) (hs : op.isStep = true) :
    Emits tbl acc loose (step tbl lbl op opd) g st fun id ir => ir.IsRegister id lbl.type := by
  obtain ⟨-, hvar, htakes⟩ := hn.typed.rule
  obtain ⟨sym, hvar, -⟩ := hvar hs
  have hform := Form.eq_var_of_var? hvar
  obtain ⟨hnumeric, htype⟩ : opd.type.base.isNumeric = true ∧ lbl.type = opd.type := by
    cases op <;> first | exact htakes | cases hs
  have hkid : opd ∈ (Form.unary op opd).children := mem_singleton_self _
  have hscope := hn.inScope.imp_right fun hscoped => hscoped.child_of_expression rfl hkid
  obtain ⟨hu, hsame⟩ := Usable.of_typed (hn.typed.child hkid) hform (hn.permitted.step hs) hscope hc
  have hlabel : lbl.type = (tbl.get sym).type := htype.trans hsame
  unfold step
  dsimp only
  rw [hform]
  cases hvector : lbl.type.isVector with
  | true => exact .throw (.vectorStep _ _ _ hvector)
  | false =>
    obtain ⟨one, hone⟩ : ∃ one, Value.one? lbl.type.base = some one := by
      rw [htype]
      cases hbase : opd.type.base <;> rw [hbase] at hnumeric <;> first | exact ⟨_, rfl⟩ | cases hnumeric
    rw [hone]
    have hupdate (later : LoweringState) (graph' : Graph) (current literal old : ObjectId) (code : InstCode)
        (hcode : code.isPure = true) (h' : later.Ready tbl acc false graph') (hk : st.Keeps later)
        (hcur : later.builder.IsRegister current lbl.type) (hlit : later.builder.IsLiteral literal one lbl.type)
        (hold : later.builder.IsRegister old lbl.type) : Emits tbl acc loose (do
          let updated ← compute code lbl.type [current, literal]
          let updated ← store tbl sym opd.span updated
          return if op.isPreStep then updated else old) graph' later fun id ir => ir.IsRegister id lbl.type := by
      refine (computeTwo_emits h' hcode hcur.isValue hlit.isValue).bind fun updated _ _ h₁ hk₁ hupdated => ?_
      rw [hlabel] at hupdated
      refine (store_emits h₁ (hu.keeps (hk.trans hk₁)) rfl hupdated).bind fun stored _ _ h₂ hk₂ hsto =>
        .pure h₂ ?_
      split
      · rwa [hlabel]
      · exact hold.grows (hk₁.grows.trans hk₂.grows)
    have hcode : (if op.isIncrement then arithmeticCode lbl.type.base .add .add
        else arithmeticCode lbl.type.base .sub .sub : InstCode).isPure = true := by
      split <;> exact isPure_arithmeticCode ..
    refine (newImmediate_emits h one lbl.type).bind fun literal _ _ h₁ hk₁ hlit => ?_
    refine (load_emits h₁ (hu.keeps hk₁) rfl).bind fun current _ _ h₂ hk₂ hcur => ?_
    rw [← hlabel] at hcur
    have hliteral₂ := hlit.grows hk₂.grows
    have hoffset : ∃ offset?, memberOffset? tbl sym opd.span = pure offset? := by
      rcases member_or_local hu.isVariable with ⟨off, access, hk⟩ | hlocal
      · exact ⟨_, memberOffset?_of_member hk⟩
      · exact ⟨_, memberOffset?_of_isLocal hlocal⟩
    obtain ⟨offset?, hoffset⟩ := hoffset
    rw [hoffset, pure_bind]
    split
    · exact hupdate _ _ _ _ _ _ hcode h₂ (hk₁.trans hk₂) hcur hliteral₂ hcur
    · refine (copy_emits h₂ hcur rfl hn.typed.valid (hlabel ▸ hu.isVoid)).bind fun old _ _ h₃ hk₃ hold => ?_
      exact hupdate _ _ _ _ _ _ hcode h₃ (hk₁.trans (hk₂.trans hk₃)) (hcur.grows hk₃.grows)
        (hliteral₂.grows hk₃.grows) hold

lemma unary_emits (hc : st.Covers loose Γ) (hn : (Node.mk lbl (.unary op opd)).Lowerable tbl acc loose res Γ)
    (ih : op.isStep = false → YieldsValue tbl acc loose Γ (opd.lowered tbl).expression opd.type) :
    Emits tbl acc loose (unary tbl lbl op (opd.lowered tbl)) g st fun id ir =>
      ir.IsRegister id lbl.type := by
  unfold unary
  rw [Node.node_lowered]
  cases hs : op.isStep with
  | true => exact step_emits h hc hn hs
  | false =>
    obtain ⟨-, -, htakes⟩ := hn.typed.rule
    refine (ih hs g st h hc).bind fun val mid _ h₁ _ hval => ?_
    have hsrcs : ∀ source ∈ [val], mid.builder.IsValue source := by simpa using hval.isValue
    cases op with
    | negate => exact compute_emits h₁ (isPure_arithmeticCode ..) (by simp) hsrcs
    | complement => exact compute_emits h₁ rfl (by simp) hsrcs
    | not =>
      refine (newImmediate_emits h₁ _ _).bind fun one _ _ h₂ hk₂ hone => ?_
      exact computeTwo_emits h₂ rfl (hval.isValue.grows hk₂.grows) hone.isValue
    | cast => exact cast_emits h₁ hval htakes hn.typed.valid
    | _ => cases hs

lemma compareBools_emits {op : BinaryOp} (hl : st.builder.IsValue left) (hr : st.builder.IsValue right) :
    Emits tbl acc loose (compareBools op type left right) g st fun id ir => ir.IsRegister id type := by
  refine (computeTwo_emits h rfl hl hr).bind fun differs _ _ h₁ _ hdiffers => ?_
  split
  · exact .pure h₁ hdiffers
  · refine (newImmediate_emits h₁ _ _).bind fun one _ _ h₂ hk₂ hone => ?_
    exact computeTwo_emits h₂ rfl (hdiffers.isValue.grows hk₂.grows) hone.isValue

lemma twoValues_emits {lhs rhs : Lower ObjectId} {type' : ValueType} {f : ObjectId → ObjectId → Lower ObjectId}
    (hc : st.Covers loose Γ)
    (hl : YieldsValue tbl acc loose Γ lhs type) (hr : YieldsValue tbl acc loose Γ rhs type')
    (hf : ∀ left right graph' later, later.Ready tbl acc false graph' → later.builder.IsValue left →
      later.builder.IsValue right →
      Emits tbl acc loose (f left right) graph' later fun id ir => ir.IsRegister id res) :
    Emits tbl acc loose (do let left ← lhs; let right ← rhs; f left right) g st fun id ir =>
      ir.IsRegister id res :=
  (hl g st h hc).bind fun left _ _ h₁ hk₁ hleft => (hr _ _ h₁ (hc.keeps hk₁)).bind
    fun right _ _ h₂ hk₂ hright =>
      hf left right _ _ h₂ (hleft.isValue.grows hk₂.grows) hright.isValue

lemma binary_emits {op : BinaryOp} {lhs rhs : Node} (hc : st.Covers loose Γ)
    (hn : (Node.mk lbl (.binary op lhs rhs)).Lowerable tbl acc loose res Γ)
    (hl : op ≠ .assign → YieldsValue tbl acc loose Γ (lhs.lowered tbl).expression lhs.type)
    (hr : YieldsValue tbl acc loose Γ (rhs.lowered tbl).expression rhs.type) :
    Emits tbl acc loose (binary tbl lbl op (lhs.lowered tbl) (rhs.lowered tbl)) g st fun id ir =>
      ir.IsRegister id lbl.type := by
  have htyped := hn.typed
  obtain ⟨-, -, hvar, htypes, htakes⟩ := htyped.rule
  unfold binary
  cases hclass : op.operatorClass with
  | assignment =>
    obtain rfl : op = .assign := by cases op <;> first | rfl | cases hclass
    obtain ⟨sym, hvar, -⟩ := hvar rfl
    have hform := Form.eq_var_of_var? hvar
    have hkid : lhs ∈ (Form.binary .assign lhs rhs).children := mem_cons_self ..
    have hscope := hn.inScope.imp_right fun hscoped => hscoped.child_of_expression rfl hkid
    obtain ⟨hu, hsame⟩ := Usable.of_typed (htyped.child hkid) hform hn.permitted.assign.1 hscope hc
    change Emits tbl acc loose (assign tbl (lhs.lowered tbl) (rhs.lowered tbl)) g st _
    unfold assign
    rw [Node.node_lowered, hform]
    refine (hr g st h hc).bind fun val _ _ h₁ hk₁ hval => ?_
    rw [← htypes, hsame] at hval
    have hlabel : lbl.type = (tbl.get sym).type := Eq.trans htakes hsame
    rw [hlabel]
    exact store_emits h₁ (hu.keeps hk₁) rfl hval
  | comparison =>
    have hop : op ≠ .assign := by
      rintro rfl
      cases hclass
    change Emits tbl acc loose (comparison lbl op (lhs.lowered tbl) (rhs.lowered tbl)) g st _
    unfold comparison
    rw [Node.node_lowered]
    dsimp only
    split
    · exact .throw (.vectorComparison _)
    · refine twoValues_emits h hc (hl hop) hr fun left right _ _ h₁ hleft hright => ?_
      split
      · exact compareBools_emits h₁ hleft hright
      · split
        · exact computeTwo_emits h₁ rfl hleft hright
        · exact computeTwo_emits h₁ rfl hleft hright
        · exact computeTwo_emits h₁ rfl hleft hright
        · exact computeTwo_emits h₁ rfl hright hleft
        · exact computeTwo_emits h₁ rfl hright hleft
        · exact computeTwo_emits h₁ rfl hleft hright
  | logical =>
    have hop : op ≠ .assign := by
      rintro rfl
      cases hclass
    change Emits tbl acc loose (logical tbl lbl op (lhs.lowered tbl) (rhs.lowered tbl)) g st _
    unfold logical
    split
    · exact .throw (.operandEffect op _ hclass)
    · exact twoValues_emits h hc (hl hop) hr fun left right _ _ h₁ hleft hright =>
        computeTwo_emits h₁ rfl hleft hright
  | _ =>
    have hop : op ≠ .assign := by
      rintro rfl
      cases hclass
    exact twoValues_emits h hc (hl hop) hr fun left right _ _ h₁ hleft hright =>
      computeTwo_emits h₁ (isPure_operationCode ..) hleft hright

lemma mapM_emits {nodes : List Node} (hc : st.Covers loose Γ)
    (ih : ∀ node ∈ nodes, YieldsValue tbl acc loose Γ (node.lowered tbl).expression node.type) :
    Emits tbl acc loose ((nodes.map (Node.lowered tbl)).mapM (·.expression)) g st fun ids ir =>
      ids.length = nodes.length ∧ ∀ id ∈ ids, ir.IsValue id := by
  induction nodes generalizing g st with
  | nil => exact .pure h ⟨rfl, forall_mem_nil _⟩
  | cons node rest hrest =>
    rw [map_cons, mapM_cons]
    refine (ih node (.head _) g st h hc).bind fun id _ _ h₁ hk₁ hid => ?_
    refine (hrest h₁ (hc.keeps hk₁) (forall_mem_cons.mp ih).2).bind fun ids _ _ h₂ hk₂ hids => .pure h₂ ?_
    refine ⟨congrArg Nat.succ hids.1, fun other hm => ?_⟩
    rcases mem_cons.mp hm with rfl | hm
    · exact hid.isValue.grows hk₂.grows
    · exact hids.2 other hm

end

/-- Intrinsics that are one instruction have a code for their type. -/
lemma isTranscendental_of_intrinsicCode? {f : Intrinsic} {args : List ValueType}
    (hres : f.resolve args = some type) (hnone : intrinsicCode? f type.base = none) :
    f.isTranscendental = true := by
  have hbase : type.base = .float ∨ type.base = .double ∨ f.acceptsIntegers = true := by
    unfold Intrinsic.resolve at hres
    split at hres
    · cases hres
    · split at hres
      · cases hres
      · split at hres
        · rename_i hbase
          cases hres
          exact .inl hbase
        · rename_i hbase
          cases hres
          exact .inr (.inl hbase)
        · cases hres
          split
          · rename_i haccepts
            exact .inr (.inr haccepts)
          · exact .inr (.inl rfl)
        · cases hres
        · cases hres
  rcases hbase with hbase | hbase | haccepts
  · rw [hbase] at hnone
    cases f <;> first | rfl | cases hnone
  · rw [hbase] at hnone
    cases f <;> first | rfl | cases hnone
  · cases f <;> first | cases haccepts; done | cases hnone

lemma call_emits {callee : SymbolId} {args : List Node} (h : st.Ready tbl acc false g)
    (hc : st.Covers loose Γ) (hn : (Node.mk lbl (.call callee args)).Lowerable tbl acc loose res Γ)
    (ih : ∀ node ∈ args, YieldsValue tbl acc loose Γ (node.lowered tbl).expression node.type) :
    Emits tbl acc loose (call tbl lbl callee (args.map (Node.lowered tbl))) g st fun id ir =>
      ir.IsRegister id lbl.type := by
  have htyped := hn.typed
  obtain ⟨-, hcall⟩ := htyped.rule
  have hcheck : parameterTypes (tbl.get callee) (args.map (·.type)) = .ok (args.map (·.type)) :=
    (Node.checked_mk.mp hn.checked).1
  unfold call
  dsimp only
  unfold Parser.callType? at hcall
  rcases parameterTypes_eq_ok.mp hcheck with ⟨signature, hk, -, -⟩ | ⟨f, type, hk, harity, hres, -⟩
  · rw [hk]
    exact .throw (.call callee _ (.inl (by rw [Symbol.isFunction, hk])))
  · rw [hk] at hcall ⊢
    dsimp only at hcall ⊢
    rw [hres] at hcall
    obtain rfl : type = lbl.type := Option.some.inj hcall
    cases hcode : intrinsicCode? f lbl.type.base with
    | none => exact .throw (.call callee _ (.inr ⟨f, hk, isTranscendental_of_intrinsicCode? hres hcode⟩))
    | some code =>
      refine (mapM_emits h hc ih).bind fun sources _ _ h₁ _ hsrcs => ?_
      refine compute_emits h₁ (isPure_of_intrinsicCode? hcode) ?_ hsrcs.2
      rw [hsrcs.1, ← length_map (·.type), ← harity]
      cases f <;> decide

end

end Lower

/-- The code of an expression is straight and leaves its value in a register. -/
lemma Node.expression_emits (hn : node.Lowerable tbl acc loose res Γ) (he : node.form.isExpression = true) :
    Lower.YieldsValue tbl acc loose Γ (node.lowered tbl).expression node.type := by
  induction node with
  | mk lbl form ih =>
    intro g st h hc
    rw [Node.expression_lowered]
    have hkid : ∀ kid ∈ form.children, (∀ op opd, form = .unary op opd → op.isStep = false) →
        (∀ lhs rhs, form ≠ .binary .assign lhs rhs) →
          Lower.YieldsValue tbl acc loose Γ (kid.lowered tbl).expression kid.type :=
      fun kid hm hstep hasg => ih kid hm (hn.child he hm hstep hasg) (hn.typed.isExpression_of_mem he hm)
    cases form with
    | immediate val =>
      have hval : lbl.type = val.type := hn.typed.rule
      refine Lower.immediate_emits h hn.typed.valid ?_
      rw [hval]
      cases val <;> rfl
    | var sym =>
      obtain ⟨hu, hsame⟩ := Lower.Usable.of_typed hn.typed rfl hn.permitted hn.inScope hc
      rw [hsame]
      exact Lower.load_emits h hu rfl
    | swizzle obj field => exact .throw (.swizzle _ _)
    | unary op opd =>
      refine Lower.unary_emits h hc hn fun hs => hkid opd (.head _) (fun _ _ heq => ?_) nofun
      cases heq
      exact hs
    | binary op lhs rhs =>
      have hright : rhs ∈ (Form.binary op lhs rhs).children := mem_cons_of_mem _ (.head _)
      refine Lower.binary_emits h hc hn (fun hop => hkid lhs (.head _) nofun ?_) ?_
      · rintro _ _ heq
        cases heq
        exact hop rfl
      · by_cases hop : op = .assign
        · subst hop
          refine ih rhs hright ⟨hn.typed.child hright, (checked_mk.mp hn.checked).2 rhs hright,
            hn.permitted.assign.2,
            hn.inScope.imp_right fun hs => hs.child_of_expression rfl hright⟩
            (hn.typed.isExpression_of_mem he hright)
        · refine hkid rhs hright nofun ?_
          rintro _ _ heq
          cases heq
          exact hop rfl
    | call callee args => exact Lower.call_emits h hc hn fun kid hm => hkid kid hm nofun nofun
    | _ => cases he

end Shading
