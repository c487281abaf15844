import Shading.Proofs.Simplify.Evaluation
import Shading.Proofs.Simplify.Preserved

/-!
# Visits keep values

`Visits.sameValue`: over words, what becomes of an expression does to the store
what the expression does, has the same value wherever the value is used, and
leaves what is known true.
-/

namespace Shading

open Node Meaning Option

variable {left lhs rhs right seen : Node} {op : BinaryOp} {reduction : Reduction} {tbl : SymbolTable}
  {sym : SymbolId} {val : Value} {sem : Interpretation} {σ : Store} {Γ : List SymbolId}
  {place : Place} {after : Facts} {lbl : Label} {opd : Node} {conditional : Bool} {mid : Facts} {callee : SymbolId}
  {args coerced : List Node} {types : List ValueType}

/-- The function that is visited returns a word or nothing. -/
structure ReturnsWord (table : SymbolTable) (result : ValueType) (function? : Option SymbolId) : Prop extends
    ReturnsType table result function? where
  words : result.IsWord ∨ result.isVoid = true

/-- A tree over words with its locals in scope. -/
structure Node.Ready (table : SymbolTable) (scope : List SymbolId) (node : Node) : Prop where
  typed : node.Typed table
  words : node.Words table
  inScope : node.Scoped table scope

lemma Node.Ready.operand {form : Form Node}
    (h : (Node.mk lbl form).Ready tbl Γ) (he : form.isExpression = true) {kid : Node}
    (hc : kid ∈ form.children) : kid.Ready tbl Γ :=
  ⟨h.typed.child hc, h.words.child hc, h.inScope.child_of_expression he hc⟩

/-- A local that is used is in scope. -/
lemma Node.Ready.mem_scope {node : Node}
    (h : node.Ready tbl Γ) (hv : node.form = .var sym) (hl : (tbl.get sym).isLocal = true) :
    sym ∈ Γ := by
  obtain ⟨lbl, form⟩ := node
  obtain rfl : form = .var sym := hv
  exact scoped_mk.mp h.inScope hl

/-- What becomes of an expression at a store. -/
structure SameValue (interp : Interpretation) (table : SymbolTable) (scope : List SymbolId) (place : Place)
    (store : Store) (node visited : Node) (after : Facts) : Prop where
  store_eq : (visited.value interp table store).2 = (node.value interp table store).2
  value_eq : place ≠ .statement → (visited.value interp table store).1 = (node.value interp table store).1
  holds : after.Hold table scope (node.value interp table store).2

namespace SameValue

variable {node : Node}

lemma of_eq (h : seen.value sem tbl σ = node.value sem tbl σ)
    (hold : after.Hold tbl Γ (node.value sem tbl σ).2) :
    SameValue sem tbl Γ place σ node seen after :=
  ⟨congrArg Prod.snd h, fun _ => congrArg Prod.fst h, hold⟩

lemma eq (h : SameValue sem tbl Γ .nested σ node seen after) : seen.value sem tbl σ = node.value sem tbl σ :=
  Prod.ext (h.value_eq (by decide)) h.store_eq

end SameValue

@[simp] lemma Node.value_ofValue (val : Value) : (ofValue val).value sem tbl = fun σ => (val, σ) :=
  value_immediate val

section

variable (hl : left.value sem tbl σ = lhs.value sem tbl σ)
  (hr : right.value sem tbl (left.value sem tbl σ).2 = rhs.value sem tbl (left.value sem tbl σ).2)

include hl hr

/-- A reduced operation has the value of the operation. -/
lemma Reduction.value_result {fold : Bool} (hasg : op.operatorClass ≠ .assignment)
    (hlog : op.operatorClass ≠ .logical)
    (hred : op.reduction fold lbl.type left.operand right.operand = .ok reduction)
    (hwl : ∀ σ, (left.value sem tbl σ).1.type.IsWord)
    (htypes : ∀ σ other, (left.value sem tbl σ).1.type = (right.value sem tbl other).1.type) :
    (reduction.result (.mk lbl (.binary op left right)) left right).value sem tbl σ =
      (mk lbl (.binary op lhs rhs)).value sem tbl σ := by
  have hfold : ∀ {a b val : Value}, op.fold a b = .ok val → sem.binary op a b = val := by
    intro a b val h
    rw [Interpretation.binary, h]
  rw [value_operation hasg hlog, ← hl, ← hr]
  rcases BinaryOp.reduction_cases hred with rfl | ⟨a, b, val, ha, hb, hval, rfl⟩ | ⟨hneutral, -, rfl⟩ |
    ⟨hneutral, -, rfl⟩
  · exact value_operation hasg hlog left right σ
  · rw [value_of_immediate? ha, value_of_immediate? hb, hfold hval]
    exact congrFun (value_ofValue val) σ
  · obtain ⟨b, hb, hleft⟩ := BinaryOp.neutral_left hneutral
    have htype := htypes σ σ
    rw [value_of_immediate? hb] at htype ⊢
    rw [hfold (hleft _ (hwl σ) htype)]
    rfl
  · obtain ⟨a, ha, hright⟩ := BinaryOp.neutral_right hneutral
    have htype := htypes σ σ
    have hword := hwl σ
    rw [value_of_immediate? ha] at htype hword ⊢
    rw [hfold (hright _ (htype ▸ hword) htype.symm)]
    rfl

/-- A reduced `&&` or `||` has the value of the operation. -/
lemma Reduction.value_logical (hop : op.operatorClass = .logical) (hred : reduction = .keep ∨
      reduction = logicalReduction op left.literalCondition? right.literalCondition? (left.isPure tbl))
    (hpure : left.isPure tbl = true → (left.value sem tbl σ).2 = σ)
    (hbool : ∃ a, (left.value sem tbl σ).1 = .bool a) :
    (reduction.result (.mk lbl (.binary op left right)) left right).value sem tbl σ =
      (mk lbl (.binary op lhs rhs)).value sem tbl σ := by
  have hkeep : (mk lbl (.binary op left right)).value sem tbl σ =
      (mk lbl (.binary op lhs rhs)).value sem tbl σ := by
    rw [value_binary, value_binary]
    cases op <;> first | cases hop; done | simp only [binary, ← hl, ← hr]
  obtain ⟨a, ha⟩ := hbool
  have hop : op = .and ∨ op = .or := by
    cases op <;> first | exact .inl rfl | exact .inr rfl | cases hop
  have hleft : ∀ {val : Bool}, left.literalCondition? = some val →
      left.value sem tbl σ = (.bool val, σ) := fun h => value_of_literalCondition? h σ
  have hright : ∀ {val : Bool} {σ : Store}, right.literalCondition? = some val →
      right.value sem tbl σ = (.bool val, σ) := fun h => value_of_literalCondition? h _
  rcases hred with rfl | rfl
  · exact hkeep
  rw [← hkeep, value_binary]
  unfold logicalReduction
  split
  · rename_i x y hx hy
    rcases hop with rfl | rfl <;> cases x <;> cases y <;> simp [result, binary, hleft hx, hright hy]
  · rename_i x hx hy
    rcases hop with rfl | rfl <;> cases x <;> simp [result, binary, hleft hx]
  · rename_i y hx hy
    have hval : left.value sem tbl σ = (.bool a, (left.value sem tbl σ).2) := Prod.ext ha rfl
    cases hleftPure : left.isPure tbl with
    | false => rcases hop with rfl | rfl <;> cases y <;> cases a <;> simp [result, binary, ha, hright hy, ← hval]
    | true =>
      rw [hpure hleftPure] at hval
      rcases hop with rfl | rfl <;> cases y <;> cases a <;> simp [result, binary, hval, hright hy]
  · rcases hop with rfl | rfl <;> rfl

end

variable {env : SimplifyEnv} {result : ValueType}

/-- A value that is converted to the type it has stays as it is. -/
lemma Preserved.coerced_eq {node coerced : Node} {type : ValueType}
    (h : Preserved env.symbols result node seen) (he : node.form.isExpression = true) (ht : node.type = type)
    (hc : seen.coerced? env type = some coerced) : coerced = seen := by
  rw [coerced?_of_type_eq ((h.type_eq he).trans ht)] at hc
  exact (some.inj hc).symm

/-! ## One step -/

namespace SameValue

variable {pre : Facts}

lemma foldStep {op : UnaryOp} {updated : Value}
    (hn : (Node.mk lbl (.unary op opd)).Ready env.symbols Γ) (hb : pre.Typed env.symbols)
    (hold : pre.Hold env.symbols Γ σ) (isStep : op.isStep = true) (isVar : opd.form = .var sym)
    (hplace : op.isPreStep = true ∨ place = .statement) (known : pre.lookup sym = some val)
    (stepped : stepped? op val = some updated) :
    SameValue sem env.symbols Γ place σ (.mk lbl (.unary op opd))
      (.mk lbl (.binary .assign opd (.ofValue updated)))
      (pre.record env conditional sym (some updated)) := by
  have hopd := hn.operand rfl (List.mem_singleton_self opd)
  obtain ⟨hlocal, htype⟩ := hb sym val known
  have hread := hold sym (hopd.mem_scope isVar hlocal) val known
  have hword : (env.symbols.get sym).type.IsWord := by
    have hrule := hopd.typed.rule
    rw [isVar] at hrule
    rw [← hrule.2.2]
    exact hopd.words.isWord (by rw [isVar]; rfl) hrule.2.1
  have hnode : (Node.mk lbl (.unary op opd)).value sem env.symbols σ =
      (if op.isPreStep then updated else val, σ.write env.symbols sym updated) := by
    rw [Node.value_unary, unary, if_pos isStep, step, isVar]
    simp only [hread, UnaryOp.applyStep, stepped, getD_some]
  have hvis : (Node.mk lbl (.binary .assign opd (.ofValue updated))).value sem env.symbols σ =
      (updated, σ.write env.symbols sym updated) := by
    rw [Node.value_assign isVar, Node.value_ofValue]
  refine ⟨by rw [hnode, hvis], fun hstmt => ?_, ?_⟩
  · rw [hnode, hvis, if_pos (hplace.resolve_right hstmt)]
  · rw [hnode]
    exact hold.record hb hword ((stepped?_type stepped).trans htype) (by simp) fun _ hm => .inr hm

section

variable {op : UnaryOp} (isStep : op.isStep = false) (ih : SameValue sem env.symbols Γ .nested σ opd seen after)
include isStep ih

lemma unary : SameValue sem env.symbols Γ place σ (.mk lbl (.unary op opd))
      (.mk lbl (.unary op seen)) after := by
  refine .of_eq ?_ ?_
  · rw [value_unary_of_isStep isStep, value_unary_of_isStep isStep, ih.eq]
  · rw [value_unary_of_isStep isStep]
    exact ih.holds

lemma cancel {inner : UnaryOp} {innermost : Node} (ht : seen.Typed env.symbols) (hw : seen.Words env.symbols)
    (isUnary : seen.form = .unary inner innermost) (cancels : op.cancels inner = true) :
    SameValue sem env.symbols Γ place σ (.mk lbl (.unary op opd)) innermost after := by
  simp only [UnaryOp.cancels, Bool.and_eq_true, decide_eq_true_eq] at cancels
  obtain ⟨rfl, hinvolution⟩ := cancels
  obtain ⟨visitedLabel, form⟩ := seen
  obtain rfl : form = .unary inner innermost := isUnary
  have hinnermost : innermost ∈ (Form.unary inner innermost).children := List.mem_singleton_self _
  obtain ⟨he, -, htakes⟩ := ht.rule
  have hword := (hw.child hinnermost).isWord he htakes.isVoid
  have htype := type_value sem (ht.child hinnermost) (hw.child hinnermost) he hword σ
  refine .of_eq ?_ ?_
  · rw [value_unary_of_isStep isStep, ← ih.eq, value_unary_of_isStep isStep,
      UnaryOp.apply_apply hinvolution (htype ▸ hword)]
  · rw [value_unary_of_isStep isStep]
    exact ih.holds

lemma foldUnary (folds : op.evaluate? seen.immediate? lbl.type = some val) :
    SameValue sem env.symbols Γ place σ (.mk lbl (.unary op opd)) (.ofValue val) after := by
  obtain ⟨known, himmediate, hfold⟩ := bind_eq_some_iff.mp folds
  refine .of_eq ?_ ?_
  · rw [value_unary_of_isStep isStep, ← ih.eq, value_of_immediate? himmediate, UnaryOp.apply, hfold]
    exact congrFun (value_ofValue val) σ
  · rw [value_unary_of_isStep isStep]
    exact ih.holds

end

section

variable (hn : (Node.mk lbl (.binary op lhs rhs)).Ready env.symbols Γ) (hl : Preserved env.symbols result lhs left)
  (hres : result.IsWord ∨ result.isVoid = true) (ihLeft : SameValue sem env.symbols Γ .nested σ lhs left mid)
  (ihRight : SameValue sem env.symbols Γ .nested (lhs.value sem env.symbols σ).2 rhs right after)

include hn hl hres ihLeft ihRight

lemma operation (hasg : op.operatorClass ≠ .assignment) (hlog : op.operatorClass ≠ .logical)
    (reduces : op.reduction env.options.fold lbl.type left.operand right.operand = .ok reduction)
    (hr : Preserved env.symbols result rhs right) :
    SameValue sem env.symbols Γ place σ (.mk lbl (.binary op lhs rhs))
      (reduction.result (.mk lbl (.binary op left right)) left right) after := by
  obtain ⟨hel, her, -, htypes, htakes⟩ := hn.typed.rule
  have hop : op ≠ .assign := by
    rintro rfl
    exact hasg rfl
  have hwl : lhs.Words env.symbols := hn.words.child (.head _)
  have hwr : rhs.Words env.symbols := hn.words.child (.tail _ (.head _))
  have hword := hwl.isWord hel (htakes.isVoid hop)
  have htypeLeft := fun σ => type_value sem hl.typed (hl.words hres hwl)
    (hl.isExpression_eq.trans hel) (hl.type_eq hel ▸ hword) σ
  have htypeRight := fun σ => type_value sem hr.typed (hr.words hres hwr)
    (hr.isExpression_eq.trans her) (hr.type_eq her ▸ htypes ▸ hword) σ
  refine .of_eq (Reduction.value_result ihLeft.eq (ihLeft.store_eq ▸ ihRight.eq) hasg hlog reduces (fun σ => ?_)
    fun σ other => ?_) ?_
  · rw [htypeLeft, hl.type_eq hel]
    exact hword
  · rw [htypeLeft, htypeRight, hl.type_eq hel, hr.type_eq her]
    exact htypes
  · rw [value_operation hasg hlog]
    exact ihRight.holds

lemma logical (hlog : op.operatorClass = .logical) (reduces : reduction = .keep ∨
      reduction = logicalReduction op left.literalCondition? right.literalCondition? (left.isPure env.symbols))
    (hfewer : mid.Fewer Γ after) :
    SameValue sem env.symbols Γ place σ (.mk lbl (.binary op lhs rhs))
      (reduction.result (.mk lbl (.binary op left right)) left right) after := by
  obtain ⟨hel, her, -, htypes, htakes⟩ := hn.typed.rule
  have hbool : lhs.type = .bool := by
    rw [BinaryOp.Takes, hlog] at htakes
    exact htakes.1
  have hwl : lhs.Words env.symbols := hn.words.child (.head _)
  have htypeLeft := type_value sem hl.typed (hl.words hres hwl)
    (hl.isExpression_eq.trans hel) (.inr ((hl.type_eq hel).trans hbool)) σ
  refine .of_eq (Reduction.value_logical ihLeft.eq (ihLeft.store_eq ▸ ihRight.eq) hlog reduces
    (fun hpure => store_of_isPure hl.typed hpure σ)
    (Value.eq_bool_of_type (htypeLeft.trans ((hl.type_eq hel).trans hbool)))) ?_
  have hskipped := ihLeft.holds.fewer hfewer
  rw [value_binary]
  cases op <;> first
    | cases hlog; done
    | (dsimp only [binary]
       split
       · first | exact ihRight.holds | exact hskipped
       · first | exact ihRight.holds | exact hskipped)

end

lemma assign {tgt val : Node}
    (hn : (Node.mk lbl (.binary .assign tgt val)).Ready env.symbols Γ) (isVar : tgt.form = .var sym)
    (hafter : after.Typed env.symbols)
    (ih : SameValue sem env.symbols Γ .nested σ val seen after) :
    SameValue sem env.symbols Γ place σ (.mk lbl (.binary .assign tgt val))
      (.mk lbl (.binary .assign tgt seen)) (after.record env conditional sym seen.immediate?) := by
  obtain ⟨-, he, -, htypes, -⟩ := hn.typed.rule
  have htgt := (hn.operand rfl (.head _) : tgt.Ready env.symbols Γ)
  have hval := (hn.operand rfl (.tail _ (.head _)) : val.Ready env.symbols Γ)
  have hrule := htgt.typed.rule
  rw [isVar] at hrule
  have hword : tgt.type.IsWord := htgt.words.isWord (by rw [isVar]; rfl) hrule.2.1
  refine .of_eq ?_ ?_
  · rw [value_assign isVar, value_assign isVar, ih.eq]
  · rw [value_assign isVar]
    refine ih.holds.record hafter (hrule.2.2 ▸ hword) ?_ (fun known hknown => ?_) fun _ hm => .inr hm
    · rw [type_value sem hval.typed hval.words he (htypes ▸ hword), ← htypes, hrule.2.2]
    · rw [← ih.eq, value_of_immediate? hknown]

lemma values_of_immediates {nodes : List Node} {values : List Value}
    (h : (nodes.map (·.immediate?)).mapM (fun value? => value?) = some values) (σ : Store) :
    Meaning.values (nodes.map (·.value sem env.symbols)) σ = (values, σ) := by
  induction nodes generalizing values with
  | nil =>
    cases h
    rfl
  | cons node rest ih =>
    simp only [List.map_cons, List.mapM_cons, pure_def, bind_eq_bind, bind_eq_some_iff, some.injEq] at h
    obtain ⟨first, hfirst, others, hrest, rfl⟩ := h
    rw [List.map_cons, values_cons, value_of_immediate? hfirst, ih hrest]

section

variable {seen : List Node} (hs : env.symbols.WellFormed)
  (hn : (Node.mk lbl (.call callee args)).Ready env.symbols Γ)
  (h : List.Forall₂ (Preserved env.symbols result) args seen)
  (hp : parameterTypes (env.symbols.get callee) (seen.map (·.type)) = .ok types)
  (hc : (seen.zip types).mapM (fun arg => arg.1.coerced? env arg.2) = some coerced)
  (hr : result.IsWord ∨ result.isVoid = true)
  (hvals : values (seen.map (·.value sem env.symbols)) σ = values (args.map (·.value sem env.symbols)) σ)
  (hold : after.Hold env.symbols Γ (values (args.map (·.value sem env.symbols)) σ).2)

include hs hn h hp hc hr hvals hold

lemma call (ht : after.Typed env.symbols) : SameValue sem env.symbols Γ place σ (.mk lbl (.call callee args))
      (.mk { lbl with type := checkedCallType (env.symbols.get callee) (seen.map (·.type)) lbl.type }
        (.call callee coerced)) after := by
  have htype := (Preserved.callChecked hs hn.typed h hp hc).2.call.type_eq
  rw [Node.type_mk] at htype
  refine .of_eq ?_ ?_
  · rw [Preserved.arguments_eq hs hn.typed h hp hc hr hn.words, value_call, value_call, Meaning.call,
      Meaning.call, hvals, htype]
  · rw [value_call, Meaning.call]
    dsimp only
    split
    · exact hold
    -- A function of the program sees no local.
    · exact hold.keeps ht (fun _ _ _ => rfl : Store.Keeps env.symbols [] _ _) (by simp)

lemma foldCall (hf : evaluateCall? (env.symbols.get callee) (coerced.map (·.immediate?)) = some val) :
    SameValue sem env.symbols Γ place σ (.mk lbl (.call callee args)) (.ofValue val) after := by
  rw [Preserved.arguments_eq hs hn.typed h hp hc hr hn.words, evaluateCall?] at hf
  split at hf
  · rename_i f hkind
    obtain ⟨values, himms, hevaluate⟩ := bind_eq_some_iff.mp hf
    rw [values_of_immediates himms] at hvals
    rw [← hvals] at hold
    have hcall : (Node.mk lbl (.call callee args)).value sem env.symbols σ = (val, σ) := by
      rw [Node.value_call, Meaning.call, ← hvals]
      simp only [hkind, hevaluate, getD_some]
    refine .of_eq ?_ ?_
    · rw [hcall, value_ofValue]
    · rw [hcall]
      exact hold
  · cases hf

end

end SameValue

variable (sem)

mutual

theorem Visits.sameValue {Γ outer pre node after seen} : Visits env outer pre node after seen →
    ReturnsWord env.symbols result outer.function? → pre.Typed env.symbols → node.Ready env.symbols Γ →
    node.form.isExpression = true → ∀ σ, pre.Hold env.symbols Γ σ →
      SameValue sem env.symbols Γ outer.place σ node seen after
  | .relabel visit alike, ho, hb, hn, he, σ, hold => by
    have ih := visit.sameValue ho hb hn he σ hold
    exact ⟨alike.alike.value_eq ▸ ih.store_eq, alike.alike.value_eq ▸ ih.value_eq, ih.holds⟩
  | .immediate, _, _, _, _, σ, hold => .of_eq rfl (by rwa [value_immediate])
  | .var, _, _, _, _, σ, hold => .of_eq rfl (by rwa [value_var])
  | .known _ known, _, hb, hn, _, σ, hold => by
    have hread := hold _ (hn.mem_scope rfl (hb _ _ known).1) _ known
    refine .of_eq ?_ (by rwa [value_var])
    rw [value_ofValue, value_var]
    exact Prod.ext hread.symm rfl
  | .swizzle _, _, _, hn, _, _, _ => (hn.typed.not_swizzle hn.words).elim
  | .step isStep isVar, _, hb, hn, _, σ, hold => by
    refine .of_eq rfl ?_
    rw [value_unary, unary, if_pos isStep, step, isVar]
    exact hold.forget hb _ _
  | .foldStep isStep isVar _ place known stepped, _, hb, hn, _, σ, hold => by
    exact .foldStep hn hb hold isStep isVar place known stepped
  | .unary isStep visit, ho, hb, hn, _, σ, hold => by
    exact .unary isStep (visit.sameValue ho hb (hn.operand rfl (.head _)) hn.typed.rule.1 σ hold)
  | .cancel isStep visit isUnary cancels, ho, hb, hn, _, σ, hold => by
    have hopd := hn.operand rfl (.head _)
    have hvis := (visit.preserved ho.toReturnsType hb hopd.typed).1
    exact .cancel isStep (visit.sameValue ho hb hopd hn.typed.rule.1 σ hold) hvis.typed
      (hvis.words ho.words hopd.words) isUnary cancels.2
  | .foldUnary isStep visit folds, ho, hb, hn, _, σ, hold => by
    exact .foldUnary isStep (visit.sameValue ho hb (hn.operand rfl (.head _)) hn.typed.rule.1 σ hold) folds.2
  | .operation isAssign isLogical visitLeft visitRight reduces, ho, hb, hn, _, σ, hold => by
    have hl := hn.operand rfl (.head _)
    have hr := hn.operand rfl (.tail _ (.head _))
    obtain ⟨hleft, hmid⟩ := visitLeft.preserved ho.toReturnsType hb hl.typed
    obtain ⟨hright, -⟩ := visitRight.preserved ho.toReturnsType hmid hr.typed
    have ihLeft := visitLeft.sameValue ho hb hl hn.typed.rule.1 σ hold
    exact .operation hn hleft ho.words ihLeft (visitRight.sameValue ho hmid hr hn.typed.rule.2.1 _ ihLeft.holds)
      isAssign isLogical reduces hright
  | .logical isLogical visitLeft visitRight reduces, ho, hb, hn, _, σ, hold => by
    have hl := hn.operand rfl (.head _)
    have hr := hn.operand rfl (.tail _ (.head _))
    obtain ⟨hleft, hmid⟩ := visitLeft.preserved ho.toReturnsType hb hl.typed
    have ihLeft := visitLeft.sameValue ho hb hl hn.typed.rule.1 σ hold
    exact .logical hn hleft ho.words ihLeft (visitRight.sameValue ho hmid hr hn.typed.rule.2.1 _ ihLeft.holds)
      isLogical (reduces.imp_right And.right) (visitRight.fewer rfl hr.inScope)
  | .assign isVar visit coerces, ho, hb, hn, _, σ, hold => by
    have hv := hn.operand rfl (.tail _ (.head _))
    obtain ⟨-, he, -, htypes, -⟩ := hn.typed.rule
    have htgt := (hn.typed.child (.head _)).rule
    rw [isVar] at htgt
    obtain ⟨hvis, hafter⟩ := visit.preserved ho.toReturnsType hb hv.typed
    rw [hvis.coerced_eq he (htypes.symm.trans htgt.2.2) coerces]
    exact .assign hn isVar hafter (visit.sameValue ho hb hv he σ hold)
  | .call visit checks coerces, ho, hb, hn, _, σ, hold => by
    have hready := fun node hm => And.intro (hn.operand rfl hm) (hn.typed.rule.1 node hm)
    obtain ⟨hvis, hafter⟩ := visit.preserved ho.toReturnsType hb fun node hm =>
      ⟨(hready node hm).1.typed, .expression (hready node hm).2⟩
    obtain ⟨hvals, hholds⟩ := visit.sameValues ho rfl hb hready σ hold
    exact .call ho.wellFormed hn hvis checks coerces ho.words hvals hholds hafter
  | .foldCall visit checks coerces folds, ho, hb, hn, _, σ, hold => by
    have hready := fun node hm => And.intro (hn.operand rfl hm) (hn.typed.rule.1 node hm)
    obtain ⟨hvis, -⟩ := visit.preserved ho.toReturnsType hb fun node hm =>
      ⟨(hready node hm).1.typed, .expression (hready node hm).2⟩
    obtain ⟨hvals, hholds⟩ := visit.sameValues ho rfl hb hready σ hold
    exact .foldCall ho.wellFormed hn hvis checks coerces ho.words hvals hholds folds.2
  | .declare, _, _, _, he, _, _
  | .define _ _, _, _, _, he, _, _
  | .returnNothing _ _, _, _, _, he, _, _
  | .returnValue _ _ _ _, _, _, _, he, _, _
  | .breakLoop _, _, _, _, he, _, _
  | .continueLoop _, _, _, _, he, _, _
  | .block _, _, _, _, he, _, _
  | .branch _ _, _, _, _, he, _, _
  | .noArm _ _, _, _, _, he, _, _
  | .onlyArm _ _ _, _, _, _, he, _, _
  | .removeLoop _ _ _ _ _, _, _, _, he, _, _
  | .loop _ _ _ _ _, _, _, _, he, _, _ => by cases he

theorem VisitsAll.sameValues {Γ outer pre nodes after seen} :
    VisitsAll env outer pre nodes after seen → ReturnsWord env.symbols result outer.function? →
    outer.place = .nested → pre.Typed env.symbols →
    (∀ node ∈ nodes, node.Ready env.symbols Γ ∧ node.form.isExpression = true) →
    ∀ σ, pre.Hold env.symbols Γ σ → values (seen.map (·.value sem env.symbols)) σ =
        values (nodes.map (·.value sem env.symbols)) σ ∧
      after.Hold env.symbols Γ (values (nodes.map (·.value sem env.symbols)) σ).2
  | .nil, _, _, _, _, σ, hold => ⟨rfl, hold⟩
  | .cons visit visitRest, ho, hp, hb, hn, σ, hold => by
    obtain ⟨hready, he⟩ := hn _ (.head _)
    have hmid := (visit.preserved ho.toReturnsType hb hready.typed).2
    have ih := visit.sameValue ho hb hready he σ hold
    rw [hp] at ih
    obtain ⟨hvals, hholds⟩ := visitRest.sameValues ho hp hmid (List.forall_mem_cons.mp hn).2 _ ih.holds
    rw [List.map_cons, List.map_cons, values_cons, values_cons, ih.eq, hvals]
    exact ⟨rfl, hholds⟩

end

end Shading
