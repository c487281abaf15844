import Shading.Proofs.Simplify.Rule
import Shading.Proofs.Simplify.State

/-!
# Visiting expressions

Each visitor of `Shading.Simplify.Expression` rebuilds the node and, if the tree
is plain, does what `Visits` says (`TreePass.Performs`).
-/

namespace Shading

open List

variable {plain : Prop} {pre : Facts} {node : Node} {op : UnaryOp} {kid : Pending} {outer : Surroundings}
  {children : List Pending} {nodes : List Node}

open TreePass

/-- An action puts a node in the place of another one and visits it as the
relation says. -/
def TreePass.Performs (plain : Prop) (env : SimplifyEnv) (outer : Surroundings) (node old : Node)
    (action : TreePass Node) : Prop :=
  ∀ before, Acts plain [old] before action (fun result => [result]) fun result after => plain →
    Visits env outer before node after result

/-- A child that stands for a node and is visited as the relation says, where it
stands or elsewhere. -/
structure Pending.StandsFor (plain : Prop) (env : SimplifyEnv) (child : Pending) (node : Node) : Prop where
  linked : child.node.Linked
  form_eq : child.node.form = node.form
  label_eq : child.node.label.unplaced = node.label.unplaced
  visits : ∀ {fewer : Prop} {outside : Surroundings} {label : Label}, (fewer → plain) →
    (fewer → outside.function?.isSome = true) →
    label.unplaced = node.label.unplaced →
    Performs fewer env outside node (.mk label (Node.adopt label.id child.node.form)) (child.visit outside label)

namespace Pending.StandsFor

variable {env : SimplifyEnv} (hc : kid.StandsFor plain env node)
include hc

lemma mono {fewer : Prop} (h : fewer → plain) : kid.StandsFor fewer env node :=
  ⟨hc.linked, hc.form_eq, hc.label_eq, fun h' => hc.visits fun hp => h (h' hp)⟩

lemma run (hf : plain → outer.function?.isSome = true) : Acts plain [kid.node] pre (kid.run outer)
    (fun res => [res]) fun res after => plain → Visits env outer pre node after res := by
  obtain ⟨⟨lbl, form⟩, visit⟩ := kid
  have hvisit : Performs plain env outer node (.mk lbl (Node.adopt lbl.id form)) (visit outer lbl) :=
    hc.visits id hf hc.label_eq
  rw [Node.adopt_of_parent? (Node.linked_mk.mp hc.linked).1] at hvisit
  exact hvisit pre

lemma near (coarse : Bool) : node.Near coarse kid.node := by
  obtain ⟨lbl, form⟩ := node
  have hmk : Node.mk kid.node.label kid.node.form = kid.node := Node.mk_label_form _
  rw [← hmk, hc.form_eq]
  exact .relabel hc.label_eq.symm form

end Pending.StandsFor

/-- Children visited in a row. -/
lemma Pending.run_mapM_acts {env : SimplifyEnv} (hf : plain → outer.function?.isSome = true)
    (hc : List.Forall₂ (Pending.StandsFor plain env) children nodes) :
    Acts plain (children.map Pending.node) pre (children.mapM fun kid => kid.run outer) (fun res => res)
      fun results after => plain → VisitsAll env outer pre nodes after results := by
  induction hc generalizing pre with
  | nil => exact .same rfl fun _ => .nil
  | cons hfirst hrest ih =>
    exact .mapM_cons (hfirst.run hf) fun _ _ h₁ => ih.imp fun _ _ h₂ hp => .cons (h₁ hp) (h₂ hp)

lemma Node.Near.result {reduction : Reduction} {coarse : Bool} {a b lhs rhs : Node} (h : a.Near coarse b) :
    (reduction.result a lhs rhs).Near coarse (reduction.result b lhs rhs) := by
  match reduction with
  | .keep => exact h
  | .literal _ | .operand .left | .operand .right => rfl

namespace TreePass

variable {env : SimplifyEnv} {outer : Surroundings} {own lbl : Label}

section

variable (hl : lbl.unplaced = own.unplaced)

include hl

lemma visitVar_performs (sym : SymbolId) : Performs plain env outer (.mk own (.var sym)) (.mk lbl (.var sym))
    (visitVar env lbl sym) := by
  intro pre
  have hsame : (Node.mk own (.var sym)).Near env.options.fold (.mk lbl (.var sym)) := .relabel hl.symm _
  rw [visitVar]
  split
  · exact .same rfl fun _ => .relabel .var hsame
  · rename_i hfold
    replace hfold : env.options.fold = true := by simpa using hfold
    refine .known ?_
    split
    · rename_i val hval
      exact .seq .countChange (.pure (fun _ => .toImmediate _ val) fun _ =>
        .relabel (.known hfold hval) (.of_alike (.ofValue _ val) hfold))
    · exact .same rfl fun _ => .relabel .var hsame

/-! ## Unary operators -/

lemma visitStep_performs (hc : kid.StandsFor plain env node) (hs : op.isStep = true)
    (hv : plain → node.form.var?.isSome = true) :
    Performs plain env outer (.mk own (.unary op node)) (.mk lbl (.unary op kid.node))
    (visitStep env outer lbl op kid.node) := by
  intro pre
  have hsame : (Node.mk own (.unary op node)).Near env.options.fold (.mk lbl (.unary op kid.node)) :=
    .mk hl.symm (congrArg (Form.unary op) (hc.near _))
  rw [visitStep, hc.form_eq]
  split
  · rename_i sym hform
    refine .known ?_
    generalize hupdated : (if env.options.fold && (op.isPreStep || outer.place = .statement) then
      (pre.lookup sym).bind (stepped? op) else none) = updated?
    cases updated? with
    | none => exact .seq (.forget sym) (.same rfl fun _ => .relabel (.step hs hform) hsame)
    | some updated =>
      -- The new value stands beside the operand.
      refine .seq .countChange (.fresh (fun low => .adopted rfl rfl ((Numbered.refl _ [kid.node]).append
        (Numbered.create _ (.immediate updated) updated.type lbl.span)) fun _ hs => ?_) fun low =>
          .seq (.recordAssignment ..) (.same rfl fun _ => ?_))
      · refine Node.spanned_mk.mpr ⟨hs.span, fun kid hm => ?_⟩
        rcases mem_cons.mp hm with rfl | hm
        · exact hs.child (.head _)
        · exact mem_singleton.mp hm ▸ .create nofun hs.span
      split at hupdated
      · rename_i happlies
        rw [Bool.and_eq_true, Bool.or_eq_true] at happlies
        obtain ⟨val, hval, hstepped⟩ := Option.bind_eq_some_iff.mp hupdated
        refine .relabel (.foldStep hs hform happlies.1 ?_ hval hstepped) ?_
        · exact happlies.2.imp_right fun hplace => of_decide_eq_true hplace
        · have hlit : (Node.ofValue updated).Alike (.create ⟨low⟩ (.immediate updated) updated.type lbl.span) :=
            .create _ _ _ _ rfl
          have hform : (Node.mk own (.binary .assign node (.ofValue updated))).Alike
              (.mk lbl (.binary .assign kid.node (.create ⟨low⟩ (.immediate updated) updated.type lbl.span))) :=
            .mk (Label.type_eq hl.symm) (congrArg₂ (Form.binary .assign) (hc.near true) hlit)
          exact .of_alike (hform.trans (.withForm (.mk lbl (.unary op kid.node)) _)) happlies.1
      · cases hupdated
  · rename_i hother
    refine .same rfl fun hp => ?_
    obtain ⟨sym, hsym⟩ := Option.isSome_iff_exists.mp (hv hp)
    exact absurd (Form.eq_var_of_var? hsym) (hother sym)

lemma simplifyUnary_acts {seen : Node} {mid : Facts} (hfold : env.options.fold = true) (hs : op.isStep = false)
    (hv : plain → Visits env outer.nested pre node mid seen) :
    Acts plain [.mk lbl (.unary op seen)] mid (simplifyUnary lbl op seen)
      (fun res => [res]) fun res after => plain → Visits env outer pre (.mk own (.unary op node)) after res := by
  have hsame : (Node.mk own (.unary op seen)).Near env.options.fold (.mk lbl (.unary op seen)) :=
    .relabel hl.symm _
  rw [simplifyUnary]
  split
  · rename_i inner innermost hform
    split
    · rename_i hcancels
      refine .seq .countChange (.pure (fun low => .replaceBy ?_ fun _ hs => ?_) fun hp =>
        .relabel (.cancel hs (hv hp) hform ⟨hfold, hcancels⟩) (.of_alike (.replaceBy _ innermost) hfold))
      · have hbelow := (Numbered.refl low [seen]).inside
        rwa [hform] at hbelow
      · have hopd := hs.child (mem_singleton_self seen)
        exact hopd.child (hform ▸ mem_singleton_self innermost)
    · exact .same rfl fun hp => .relabel (.unary hs (hv hp)) hsame
  · split
    · rename_i val hfolds
      exact .seq .countChange (.pure (fun _ => .toImmediate _ val) fun hp =>
        .relabel (.foldUnary hs (hv hp) ⟨hfold, Label.type_eq hl ▸ hfolds⟩) (.of_alike (.ofValue _ val) hfold))
    · exact .same rfl fun hp => .relabel (.unary hs (hv hp)) hsame

variable (hf : plain → outer.function?.isSome = true)

include hf

lemma visitDeclare_performs {sym : SymbolId} {child? : Option Pending} {node? : Option Node}
    (hc : Option.Rel (Pending.StandsFor plain env) child? node?) :
    Performs plain env outer (.mk own (.declare sym node?))
      (.mk lbl (.declare sym (child?.map Pending.node))) (visitDeclare env outer lbl sym child?) := by
  intro pre
  cases hc with
  | none => exact .seq (.forget sym) (.same rfl fun _ => .relabel .declare (.relabel hl.symm _))
  | some hc =>
    let shape (val : Node) : Form Node := .declare sym (some val)
    refine .bind (.inside shape [] [] (hc.run hf) rfl fun _ => rfl) fun val mid hvisit =>
      .bind (.inside shape [] [] (coerce_acts val _) rfl fun _ => rfl) ?_
    rintro converted _ ⟨rfl, coerced, hco, halike⟩
    refine .seq (.recordAssignment ..) (.same rfl fun hp => ?_)
    rw [← halike.alike.immediate?_eq]
    exact .relabel (.define (hvisit hp) hco)
      (.mk hl.symm (congrArg (fun val => Form.declare sym (some val)) halike))

lemma visitUnary_performs (hc : kid.StandsFor plain env node) (hv : plain → op.isStep = true →
    node.form.var?.isSome = true) :
    Performs plain env outer (.mk own (.unary op node)) (.mk lbl (.unary op kid.node))
    (visitUnary env outer lbl op kid) := by
  intro pre
  rw [visitUnary]
  split
  · rename_i hs
    exact visitStep_performs hl hc hs (fun hp => hv hp hs) pre
  · rename_i hs
    rw [Bool.not_eq_true] at hs
    refine .bind (.inside (fun opd => .unary op opd) [] [] (hc.run hf) rfl fun _ => rfl) fun seen mid hvisit => ?_
    split
    · rename_i hfold
      exact simplifyUnary_acts hl hfold hs hvisit
    · exact .same rfl fun hp => .relabel (.unary hs (hvisit hp)) (.relabel hl.symm _)

/-! ## Binary operators -/

variable {left right : Pending} {lhs rhs : Node} (hleft : left.StandsFor plain env lhs)
  (hright : right.StandsFor plain env rhs)

include hleft hright

lemma visitOperation_performs {op : BinaryOp} (hasg : op.operatorClass ≠ .assignment)
    (hlog : op.operatorClass ≠ .logical) :
    Performs plain env outer (.mk own (.binary op lhs rhs)) (.mk lbl (.binary op left.node right.node))
      (visitOperation env outer lbl op left right) := by
  refine fun pre => .bind (.inside (fun lhs => .binary op lhs right.node) [] [right.node] (hleft.run hf) rfl
    fun _ => rfl) fun a mid ha =>
    .bind (.inside (fun rhs => .binary op a rhs) [a] [] (hright.run hf) rfl fun _ => rfl) fun b last hb => ?_
  split
  · rename_i reduction hreduction
    refine (carryOut_acts op a b reduction (BinaryOp.keep_or_fold hreduction)).imp ?_
    rintro res _ ⟨rfl, halike⟩ hp
    exact .relabel (.operation hasg hlog (ha hp) (hb hp) (Label.type_eq hl ▸ hreduction))
      (.trans (.result (.relabel hl.symm _)) halike)
  · exact .fail (.head _) _

lemma visitLogical_performs {op : BinaryOp} (hlog : op.operatorClass = .logical) :
    Performs plain env outer (.mk own (.binary op lhs rhs)) (.mk lbl (.binary op left.node right.node))
      (visitLogical env outer lbl op left right) := by
  refine fun pre => .bind (.inside (fun lhs => .binary op lhs right.node) [] [right.node] (hleft.run hf) rfl
    fun _ => rfl) fun a mid ha =>
    .bind (.inside (fun rhs => .binary op a rhs) [a] [] (hright.run hf) rfl fun _ => rfl) fun b last hb => ?_
  dsimp only
  split
  · rename_i hfold
    refine (carryOut_acts op a b _ (.inr hfold)).imp ?_
    rintro res _ ⟨rfl, halike⟩ hp
    exact .relabel (.logical hlog (ha hp) (hb hp) (.inr ⟨hfold, rfl⟩))
      (.trans (.result (.relabel hl.symm _)) halike)
  · refine .same rfl fun hp => ?_
    have hvisits : Visits env outer pre _ last (Reduction.keep.result (.mk own (.binary op a b)) a b) :=
      .logical hlog (ha hp) (hb hp) (.inl rfl)
    exact .relabel hvisits (.relabel hl.symm _)

lemma visitAssign_performs (hv : plain → lhs.form.var?.isSome = true) :
    Performs plain env outer (.mk own (.binary .assign lhs rhs)) (.mk lbl (.binary .assign left.node right.node))
      (visitAssign env outer lbl left right) := by
  let shape (val : Node) : Form Node := .binary .assign left.node val
  refine fun pre => .bind (.inside shape [left.node] [] (hright.run hf) rfl fun _ => rfl) fun seen mid hvisit => ?_
  rw [hleft.form_eq]
  split
  · rename_i sym hform
    refine .bind (.inside shape [left.node] [] (coerce_acts seen _) rfl fun _ => rfl) ?_
    rintro converted _ ⟨rfl, coerced, hco, halike⟩
    refine .seq (.recordAssignment ..) (.same rfl fun hp => ?_)
    rw [← halike.alike.immediate?_eq]
    exact .relabel (.assign hform (hvisit hp) hco)
      (.mk hl.symm (congrArg₂ (Form.binary .assign) (hleft.near _) halike))
  · rename_i hother
    refine .bind (.inside (fun tgt => .binary .assign tgt seen) [] [seen] (hleft.run hf) rfl fun _ => rfl)
      fun tgt _ _ => .same rfl fun hp => ?_
    obtain ⟨sym, hsym⟩ := Option.isSome_iff_exists.mp (hv hp)
    exact absurd (Form.eq_var_of_var? hsym) (hother sym)

lemma visitBinary_performs {op : BinaryOp} (hv : plain → op = .assign → lhs.form.var?.isSome = true) :
    Performs plain env outer (.mk own (.binary op lhs rhs)) (.mk lbl (.binary op left.node right.node))
      (visitBinary env outer lbl op left right) := by
  cases op with
  | assign => exact visitAssign_performs hl hf hleft hright fun hp => hv hp rfl
  | and | or => exact visitLogical_performs hl hf hleft hright rfl
  | _ => exact visitOperation_performs hl hf hleft hright (by decide) (by decide)

end

/-! ## Calls -/

lemma coerce_mapM_acts {pairs : List (Node × ValueType)} (hargs : pairs.map Prod.fst = nodes) :
    Acts plain nodes pre (pairs.mapM fun pair => coerce env pair.1 pair.2) (fun res => res)
      fun results after => after = pre ∧ ∃ coerced, pairs.mapM (fun arg => arg.1.coerced? env arg.2) =
      some coerced ∧ coerced.map (Node.blur env.options.fold) = results.map (Node.blur env.options.fold) := by
  subst hargs
  induction pairs generalizing pre with
  | nil => exact .same rfl ⟨rfl, [], rfl, rfl⟩
  | cons pair rest ih =>
    refine .mapM_cons (coerce_acts pair.1 pair.2) ?_
    rintro first _ ⟨rfl, coerced, hco, halike⟩
    refine ih.imp ?_
    rintro others _ ⟨rfl, more, hmore, hsame⟩
    refine ⟨rfl, coerced :: more, ?_, ?_⟩
    · rw [List.mapM_cons, hco, hmore]
      rfl
    · rw [List.map_cons, List.map_cons, halike, hsame]

lemma visitCall_performs {callee : SymbolId} (hl : lbl.unplaced = own.unplaced)
    (hf : plain → outer.function?.isSome = true) (hc : List.Forall₂ (Pending.StandsFor plain env) children nodes) :
    Performs plain env outer (.mk own (.call callee nodes)) (.mk lbl (.call callee (children.map Pending.node)))
      (visitCall env outer lbl callee children) := by
  refine fun pre => .bind (.inside (fun seen => .call callee seen) [] [] (Pending.run_mapM_acts hf hc)
    (append_nil _).symm fun _ => (append_nil _).symm) fun seen mid hvisits => ?_
  dsimp only
  cases htypes : parameterTypes (env.symbols.get callee) (seen.map (·.type)) with
  | error fault => exact .fail (.head _) _
  | ok types =>
    have hargs : (seen.zip types).map Prod.fst = seen :=
      map_fst_zip (Nat.le_of_eq (by rw [length_of_parameterTypes htypes, length_map]))
    refine .bind (.inside (fun coerced => .call callee coerced) [] [] (coerce_mapM_acts hargs)
      (append_nil _).symm fun _ => (append_nil _).symm) ?_
    rintro args _ ⟨rfl, coerced, hco, hsame⟩
    -- Only the type in the label changes.
    let called : Label :=
        { lbl with type := checkedCallType (env.symbols.get callee) (seen.map (·.type)) lbl.type }
    have hlabel (low : Nat) : Rebuilt low low [.mk lbl (.call callee args)] [.mk called (.call callee args)] :=
      .node rfl rfl rfl (.refl low _)
    refine .of_rebuilt hlabel ?_
    have himmediate : coerced.map (·.immediate?) = args.map (·.immediate?) := by
      have := congrArg (List.map Node.immediate?) hsame
      simpa [Function.comp_def, Node.immediate?_blur] using this
    generalize hfolds : (if env.options.fold then
      evaluateCall? (env.symbols.get callee) (args.map (·.immediate?)) else none) = value?
    cases value? with
    | some val =>
      refine .seq .countChange (.pure (fun _ => .toImmediate _ val) fun hp => ?_)
      split at hfolds
      · rename_i hfold
        exact .relabel (.foldCall (hvisits hp) htypes hco ⟨hfold, himmediate ▸ hfolds⟩)
          (.of_alike (.ofValue _ val) hfold)
      · cases hfolds
    | none =>
      refine .same rfl fun hp => .relabel (.call (hvisits hp) htypes hco)
        (.mk ?_ (congrArg (Form.call callee) hsame))
      rw [Label.type_eq hl]
      exact (congrArg (fun label : Label => ({ label with type := _ } : Label)) hl).symm

end TreePass

end Shading
