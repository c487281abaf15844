import Shading.Proofs.Simplify.Validated

/-!
# What whole visits keep

`Visits.preserved`: what becomes of a typed tree is typed, has passed all
checks, and is of the same kind and type, and what the pass knows about control
flow behind it is right.  Each local is used where it is declared, if that was
so before: a declaration that is visited is kept, or what follows it is dropped
as well.  Where nothing is folded, what becomes of a tree is what checking leaves
of it.
-/

namespace Shading

open Node Form SimplifyEnv
open List hiding isEmpty

/-- The function that is visited has results of a type. -/
structure ReturnsType (table : SymbolTable) (result : ValueType) (function? : Option SymbolId) : Prop where
  wellFormed : table.WellFormed
  valid : result.Valid
  type_eq : ∀ function, function? = some function → (table.get function).type = result

section

variable {tbl : SymbolTable} {Γ : List SymbolId} {env : SimplifyEnv} {node lhs rhs : Node} {form : Form Node}

namespace Node

lemma scoped_ofValue (val : Value) : (ofValue val).Scoped tbl Γ := scoped_mk.mpr nofun

lemma scoped_nothing : nothing.Scoped tbl Γ := scoped_mk.mpr trivial

lemma Scoped.coerced? {coerced : Node} {tgt : ValueType} (h : node.Scoped tbl Γ)
    (hc : node.coerced? env tgt = some coerced) : coerced.Scoped tbl Γ := by
  rcases coerced?_cases hc with ⟨-, rfl⟩ | ⟨-, -, ⟨-, -, -, val, -, rfl⟩ | rfl⟩
  · exact h
  · exact scoped_ofValue val
  · exact scoped_mk.mpr (forall_mem_singleton.mpr h)

lemma Scoped.result (h : node.Scoped tbl Γ) (hl : lhs.Scoped tbl Γ)
    (hr : rhs.Scoped tbl Γ) (reduction : Reduction) : (reduction.result node lhs rhs).Scoped tbl Γ := by
  cases reduction with
  | keep => exact h
  | literal val => exact scoped_ofValue val
  | operand side =>
    cases side with
    | left => exact hl
    | right => exact hr

lemma Scoped.of_unary {operand : Node} {op : UnaryOp} (h : node.Scoped tbl Γ)
    (hform : node.form = .unary op operand) : operand.Scoped tbl Γ := by
  obtain ⟨lbl, form⟩ := node
  obtain rfl : form = .unary op operand := hform
  exact h.child_of_expression rfl (.head _)

lemma Scoped.onlyInit (lbl : Label) {init? : Option Node} (h : ∀ node ∈ init?.toList, node.Scoped tbl Γ) :
    (onlyInit lbl init?).Scoped tbl Γ := by
  cases init? with
  | none => exact scoped_nothing
  | some init => exact scoped_mk.mpr ⟨h init (.head _), trivial⟩

lemma scoped_binary {lbl : Label} {op : BinaryOp} :
    (mk lbl (.binary op lhs rhs)).Scoped tbl Γ ↔ lhs.Scoped tbl Γ ∧ rhs.Scoped tbl Γ := by
  rw [scoped_mk]
  simp [ScopeRule, Form.children]

end Node

lemma Form.isDeclare_of_isEmpty (h : form.isEmpty = true) : form.isDeclare = false := by
  cases form <;> first | rfl | cases h

end

/-- What is known if control gets to a node. -/
structure Reached (env : SimplifyEnv) (result : ValueType) (before : Facts) (node seen : Node) (after : Facts) :
    Prop extends Flows before seen after where
  inScope : ∀ scope, node.Scoped env.symbols scope → seen.Scoped env.symbols scope
  initExports_eq : node.IsInit → seen.initExports = node.initExports
  validated : env.options.fold = false → seen.Near false (node.validated env.symbols result)

/-- What is kept of a node that is visited, and what is known behind it. -/
structure Visited (env : SimplifyEnv) (result : ValueType) (before : Facts) (node seen : Node) (after : Facts) :
    Prop extends Preserved env.symbols result node seen where
  facts : after.Typed env.symbols
  reached : before.unreachable = false → Reached env result before node seen after

/-- What is kept of the expressions and declarations of a row. -/
structure VisitedAll (env : SimplifyEnv) (result : ValueType) (before : Facts) (nodes seen : List Node)
    (after : Facts) : Prop where
  kept : List.Forall₂ (Preserved env.symbols result) nodes seen
  facts : after.Typed env.symbols
  tidy : ∀ node ∈ seen, node.Tidy
  sameFlow : before.SameFlow after
  inScope : before.unreachable = false → ∀ scope, (∀ node ∈ nodes, node.Scoped env.symbols scope) →
    ∀ node ∈ seen, node.Scoped env.symbols scope
  initExports_eq : before.unreachable = false → seen.flatMap initExports = nodes.flatMap initExports
  validated : before.unreachable = false → env.options.fold = false →
    seen.map unplaced = (nodes.map (Node.validated env.symbols result)).map unplaced

/-- What is kept of the statements of a block. -/
structure StatementsVisited (env : SimplifyEnv) (result : ValueType) (before : Facts) (nodes kept : List Node)
    (after : Facts) : Prop extends StatementsFlow before kept after where
  comesFrom : ∀ seen ∈ kept, ∃ node ∈ nodes, Preserved env.symbols result node seen
  facts : after.Typed env.symbols
  inScope : ∀ scope, ScopedAll env.symbols scope nodes → ScopedAll env.symbols scope kept
  exports_eq : before.unreachable = false → (∀ node ∈ nodes, node.form.isDeclare = true) →
    kept.flatMap exports = nodes.flatMap exports
  validated : before.unreachable = false → env.options.fold = false →
    kept.map unplaced = (upToEnd (nodes.map (Node.validated env.symbols result))).map unplaced

/-- Each local that an arm uses is in scope. -/
def HalfArm.Scoped (table : SymbolTable) (scope : List SymbolId) (half : HalfArm) : Prop :=
  (∀ cond ∈ half.condition?, cond.Scoped table scope) ∧ half.body.Scoped table scope

/-- What is kept of the arms of a branch behind the visits of their conditions. -/
structure ConditionsPreserved (env : SimplifyEnv) (result : ValueType) (before : Facts) (arms : List Node)
    (halves : List HalfArm) (after : Facts) : Prop where
  fits : ∀ half ∈ halves, half.Fits env.symbols result
  last : ∀ half ∈ halves.dropLast, half.condition?.isSome = true
  comesFrom : ∀ half ∈ halves, half.ComesFrom env.symbols result arms
  facts : after.Typed env.symbols
  sameFlow : before.SameFlow after
  inScope : before.unreachable = false → ∀ scope, (∀ arm ∈ arms, arm.Scoped env.symbols scope) →
    ∀ half ∈ halves, half.Scoped env.symbols scope
  validated : before.unreachable = false → env.options.fold = false →
    (∀ arm ∈ arms.dropLast, arm.form.isElse = false) →
    List.Forall₂ (HalfArm.From env.symbols result) arms halves

section

variable {env : SimplifyEnv} {res : ValueType} {lbl : Label} {cond? : Option Node} {node seen body : Node}
  {arms : List Node} {halves : List HalfArm} {pre mid after : Facts}

lemma Reached.of_near {other : Node} (h : Reached env res pre node seen after)
    (ha : seen.Near env.options.fold other) : Reached env res pre node other after :=
  ⟨h.1.of_alike ha.alike, fun scope hs => (h.inScope scope hs).of_alike ha.alike,
    fun hi => ha.alike.initExports_eq.symm.trans (h.initExports_eq hi),
    fun hf => (Near.trans (Eq.symm (hf ▸ ha)) (h.validated hf))⟩

namespace Visited

/-- An expression or a declaration neither jumps nor ends. -/
lemma of_init (hi : node.IsInit) (h : Preserved env.symbols res node seen) (hafter : after.Typed env.symbols)
    (hsame : pre.SameFlow after) (he : seen.initExports = node.initExports)
    (hs : pre.unreachable = false → (∀ scope, node.Scoped env.symbols scope → seen.Scoped env.symbols scope) ∧
      (env.options.fold = false → seen.Near false (node.validated env.symbols res))) :
    Visited env res pre node seen after :=
  ⟨h, hafter, fun hu =>
    ⟨.of_sameFlow hsame (ends_of_isInit (h.isInit hi)) (exits_tidy_of_isInit h.typed (h.isInit hi)) hu,
    (hs hu).1, fun _ => he, (hs hu).2⟩⟩

lemma of_expression (he : node.form.isExpression = true) (h : Preserved env.symbols res node seen)
    (hafter : after.Typed env.symbols) (hsame : pre.SameFlow after)
    (hs : pre.unreachable = false → (∀ scope, node.Scoped env.symbols scope → seen.Scoped env.symbols scope) ∧
      (env.options.fold = false → seen.Near false (node.validated env.symbols res))) :
    Visited env res pre node seen after := by
  refine .of_init (.expression he) h hafter hsame ?_ hs
  rw [initExports_of_expression he, initExports_of_expression (h.isExpression_eq.trans he)]

section

variable (h : Visited env res pre node seen after)

include h

lemma sameFlow (hi : node.IsInit) : pre.SameFlow after :=
  .of_flows (fun hu => (h.reached hu).1) (ends_of_isInit (h.isInit hi))
    (exits_tidy_of_isInit h.typed (h.isInit hi)).1

lemma forgetAll (names : List SymbolId) :
    Visited env res pre node seen (after.forgetAll names) := by
  obtain ⟨hloops, hends⟩ := after.flow_forgetAll names
  refine ⟨h.1, h.facts.forgetAll names, fun hu => ?_⟩
  have hflow := h.reached hu
  exact ⟨⟨hends.trans hflow.ends, hloops ▸ hflow.exits, hflow.tidy⟩, hflow.inScope, hflow.initExports_eq,
    hflow.validated⟩

/-- A visit keeps a declaration. -/
lemma exports_eq (hu : pre.unreachable = false) : seen.exports = node.exports := by
  cases hd : node.form.isDeclare with
  | false => rw [exports_eq_nil hd, exports_eq_nil (h.isDeclare_eq.trans hd)]
  | true =>
    rw [← initExports_of_isDeclare hd, ← initExports_of_isDeclare (h.isDeclare_eq.trans hd)]
    exact (h.reached hu).initExports_eq (isInit_iff.mpr (.inr (.inl hd)))

end

/-- Both operands are visited, and the operation may be reduced. -/
lemma binary {lhs rhs left right : Node} {op : BinaryOp} {reduction : Reduction}
    (hl : Visited env res pre lhs left mid)
    (hr : Visited env res mid rhs right after) (hkeep : reduction = .keep ∨ env.options.fold = true)
    (ht : (Node.mk lbl (.binary op lhs rhs)).Typed env.symbols)
    (h : Preserved env.symbols res (.mk lbl (.binary op lhs rhs))
      (reduction.result (.mk lbl (.binary op left right)) left right)) :
    Visited env res pre (.mk lbl (.binary op lhs rhs))
    (reduction.result (.mk lbl (.binary op left right)) left right) after := by
  have hsame := hl.sameFlow (.expression ht.rule.1)
  refine .of_expression rfl h hr.facts (hsame.trans (hr.sameFlow (.expression ht.rule.2.1))) fun hu => ?_
  have ihl := hl.reached hu
  have ihr := hr.reached (hsame hu).2
  refine ⟨fun scope hs => ?_, fun hf => ?_⟩
  · obtain ⟨hlhs, hrhs⟩ := scoped_binary.mp hs
    have hleft := ihl.inScope scope hlhs
    have hright := ihr.inScope scope hrhs
    exact .result (scoped_binary.mpr ⟨hleft, hright⟩) hleft hright reduction
  · obtain rfl := hkeep.resolve_right fun h => no_fold h hf
    exact .validated (congrArg₂ (Form.binary op) (ihl.validated hf) (ihr.validated hf))

end Visited

namespace ConditionsPreserved

/-- The rest is dropped behind an arm that always runs. -/
lemma single (ht : (Node.mk lbl (.arm cond? body)).Typed env.symbols) (hafter : after.Typed env.symbols)
    (hsame : pre.SameFlow after) (hc : env.options.fold = false → cond? = none) :
    ConditionsPreserved env res pre (.mk lbl (.arm cond? body) :: arms) [⟨lbl, none, body⟩] after := by
  have hbody : body ∈ (Form.arm cond? body).children := mem_append_right _ (mem_singleton_self body)
  refine ⟨fun half hh => ?_, by simp, fun half hh => ?_, hafter, hsame,
    fun _ _ hs => forall_mem_singleton.mpr ⟨by simp, (hs _ (.head _)).arm.2⟩, fun _ hf hlast => ?_⟩
  · obtain rfl := mem_singleton.mp hh
    exact ⟨ht.valid, by simp, ht.child hbody, ht.rule.2⟩
  · obtain rfl := mem_singleton.mp hh
    exact ⟨_, .head _, rfl, hbody, by simp⟩
  · obtain rfl := hc hf
    cases arms with
    | nil => exact .cons ⟨none, rfl, rfl⟩ .nil
    | cons => cases hlast _ (.head _)

lemma cons {cond : Node} (ht : (Node.mk lbl (.arm (some cond) body)).Typed env.symbols)
    (hc : Visited env res pre cond seen mid) (h : ConditionsPreserved env res mid arms halves after) :
    ConditionsPreserved env res pre (.mk lbl (.arm (some cond) body) :: arms)
      (⟨lbl, some seen, body⟩ :: halves) after := by
  have hbody : body ∈ (Form.arm (some cond) body).children :=
    mem_append_right _ (mem_singleton_self body)
  obtain ⟨hexpr, htype⟩ := ht.rule.1 cond rfl
  have hsame := hc.sameFlow (.expression hexpr)
  refine ⟨fun half hh => ?_, fun half hh => ?_, fun half hh => ?_, h.facts, hsame.trans h.sameFlow,
    fun hu scope hs => forall_mem_cons.mpr ⟨⟨fun node hn => ?_, (hs _ (.head _)).arm.2⟩,
      h.inScope (hsame hu).2 scope (forall_mem_cons.mp hs).2⟩,
    fun hu hf hlast => .cons ⟨_, rfl, congrArg some ((hc.reached hu).validated hf)⟩
      (h.validated (hsame hu).2 hf fun arm hm => ?_)⟩
  · rcases mem_cons.mp hh with rfl | hh
    · refine ⟨ht.valid, fun node hn => ?_, ht.child hbody, ht.rule.2⟩
      obtain rfl := Option.some.inj hn
      exact htype ▸ hc.fits hexpr
    · exact h.fits half hh
  · cases halves with
    | nil => cases hh
    | cons next rest =>
      rcases mem_cons.mp hh with rfl | hh
      · rfl
      · exact h.last half hh
  · rcases mem_cons.mp hh with rfl | hh
    · refine ⟨_, .head _, rfl, hbody, fun node hn => ?_⟩
      obtain rfl := Option.some.inj hn
      exact ⟨cond, .head _, hc.1⟩
    · exact (h.comesFrom half hh).imp fun _ hfrom => hfrom.imp_left (.tail _)
  · obtain rfl := Option.some.inj hn
    exact (hc.reached hu).inScope scope ((hs _ (.head _)).arm.1 cond rfl)
  · cases arms with
    | nil => cases hm
    | cons => exact hlast arm (.tail _ hm)

end ConditionsPreserved

end

variable {env : SimplifyEnv} {res : ValueType}

mutual

theorem Visits.preserved {outer pre node after seen} : Visits env outer pre node after seen →
    ReturnsType env.symbols res outer.function? → pre.Typed env.symbols → node.Typed env.symbols →
      Visited env res pre node seen after
  | .relabel visit near, ho, hb, ht => by
    have ih := visit.preserved ho hb ht
    exact ⟨ih.1.of_alike near.alike, ih.facts, fun hu => (ih.reached hu).of_near near⟩
  | .immediate, _, hb, ht | .var, _, hb, ht =>
    .of_expression rfl (.refl ht (checked_mk.mpr ⟨trivial, by simp [Form.children]⟩) rfl) hb (.refl _)
      fun _ => ⟨fun _ hs => hs, fun _ => .validated rfl⟩
  | .known fold hknown, _, hb, ht => by
    refine .of_expression rfl (.ofValue rfl ?_) hb (.refl _) fun _ => ⟨fun _ _ => scoped_ofValue _, no_fold fold⟩
    rw [(hb _ _ hknown).2]
    exact ht.rule.2.2.symm
  | .swizzle visit, ho, hb, ht => by
    obtain ⟨⟨hvalid, hobj⟩, hkids⟩ := typed_mk.mp ht
    have ih := visit.preserved ho hb (hkids _ (.head _))
    refine .of_expression rfl (.of_fits rfl ⟨rfl, typed_mk.mpr ⟨⟨hvalid, ih.isExpression_eq.trans hobj.1,
      by rw [ih.type_eq hobj.1]; exact hobj.2⟩, ?_⟩, checked_of_children rfl rfl ?_, rfl⟩
      (Preserved.readable_of_parts rfl rfl (forall_mem_singleton.mpr ⟨_, .head _, ih.1⟩))
      fun hres hw => words_of_children rfl (fun _ => ?_) ?_) ih.facts (ih.sameFlow (.expression hobj.1))
      fun hu => ⟨fun scope hs => scoped_mk.mpr (forall_mem_singleton.mpr
        ((ih.reached hu).inScope scope (scoped_mk.mp hs _ (.head _)))),
        fun hf => .validated (congrArg (Form.swizzle · _) ((ih.reached hu).validated hf))⟩
    case refine_3 => exact hw.isWord_of_callee? rfl rfl
    all_goals
      intro kid hm
      obtain rfl := mem_singleton.mp hm
    · exact ih.typed
    · exact ih.checked
    · exact ih.words hres (hw.child (.head _))
  | .step _ isVar, _, hb, ht => by
    refine .of_expression rfl (.refl ht (checked_of_children rfl rfl fun kid hm => ?_) rfl) (hb.forget _)
      (fun hu => ⟨rfl, hu⟩) fun _ => ⟨fun _ hs => hs, fun _ => .validated
        (congrArg (fun opd => Form.unary _ (unplaced opd)) (validated_of_var isVar).symm)⟩
    obtain rfl := mem_singleton.mp hm
    exact checked_of_var isVar
  | .foldStep isStep isVar fold _ hknown stepped, _, hb, ht => by
    have htype := (stepped?_type stepped).trans (hb _ _ hknown).2
    refine .of_expression rfl (.step ht isStep isVar htype) (hb.record ?_) (.record _ _ _ _ _)
      fun _ => ⟨fun _ hs => scoped_binary.mpr ⟨scoped_mk.mp hs _ (.head _), scoped_ofValue _⟩, no_fold fold⟩
    rintro _ ⟨⟩
    exact htype
  | .unary isStep visit, ho, hb, ht => by
    have ih := visit.preserved ho hb (ht.child (.head _))
    exact .of_expression rfl (.unary ht isStep ih.1) ih.facts (ih.sameFlow (.expression ht.rule.1))
      fun hu => ⟨fun scope hs => scoped_mk.mpr (forall_mem_singleton.mpr
        ((ih.reached hu).inScope scope (scoped_mk.mp hs _ (.head _)))),
        fun hf => .validated (congrArg (Form.unary _) ((ih.reached hu).validated hf))⟩
  | .cancel _ visit isUnary cancels, ho, hb, ht => by
    have ih := visit.preserved ho hb (ht.child (.head _))
    exact .of_expression rfl (.cancel ht cancels.2 isUnary ih.1) ih.facts (ih.sameFlow (.expression ht.rule.1))
      fun hu => ⟨fun scope hs => ((ih.reached hu).inScope scope (scoped_mk.mp hs _ (.head _))).of_unary isUnary,
        no_fold cancels.1⟩
  | .foldUnary _ visit folds, ho, hb, ht => by
    obtain ⟨⟨hvalid, hopd, -, htakes⟩, hkids⟩ := typed_mk.mp ht
    have ih := visit.preserved ho hb (hkids _ (.head _))
    refine .of_expression rfl (.ofValue rfl ?_) ih.facts (ih.sameFlow (.expression hopd))
      fun _ => ⟨fun _ _ => scoped_ofValue _, no_fold folds.1⟩
    replace folds := folds.2
    obtain ⟨val, hval, -⟩ := Option.bind_eq_some_iff.mp folds
    rw [hval] at folds
    refine UnaryOp.type_of_evaluate? hvalid ?_ folds
    rw [← type_of_immediate? ih.typed hval, ih.type_eq hopd]
    exact htakes
  | .operation isAssign _ visitLeft visitRight reduces, ho, hb, ht => by
    obtain ⟨⟨-, hlhs, hrhs, -, hsame, htakes⟩, hkids⟩ := typed_mk.mp ht
    have ihl := visitLeft.preserved ho hb (hkids _ (.head _))
    have ihr := visitRight.preserved ho ihl.facts (hkids _ (.tail _ (.head _)))
    refine ihl.binary ihr (BinaryOp.keep_or_fold reduces) ht (.operation ht (fun h => isAssign (by rw [h]; rfl))
      ihl.1 ihr.1 ?_)
    rcases BinaryOp.reduction_cases reduces with rfl | ⟨a, b, val, ha, hb, hfold, rfl⟩ | ⟨-, htype, rfl⟩ |
      ⟨-, htype, rfl⟩
    · exact .inl rfl
    · have hleft := type_of_immediate? ihl.typed ha
      have hright := type_of_immediate? ihr.typed hb
      rw [ihl.type_eq hlhs] at hleft
      rw [ihr.type_eq hrhs] at hright
      exact .inr (.inl ⟨val, BinaryOp.type_of_fold (by rw [← hleft, ← hright, hsame]) (hleft ▸ htakes) hfold,
        rfl⟩)
    · exact .inr (.inr (.inl ⟨htype, rfl⟩))
    · exact .inr (.inr (.inr ⟨htype, rfl⟩))
  | .logical isLogical visitLeft visitRight reduces, ho, hb, ht => by
    obtain ⟨⟨-, hlhs, hrhs, -, hsame, htakes⟩, hkids⟩ := typed_mk.mp ht
    have ihl := visitLeft.preserved ho hb (hkids _ (.head _))
    have ihr := visitRight.preserved ho ihl.facts (hkids _ (.tail _ (.head _)))
    rw [BinaryOp.Takes, isLogical] at htakes
    obtain ⟨hbool, hres⟩ := htakes
    have hleft := (ihl.type_eq hlhs).trans (hbool.trans hres.symm)
    have hright := (ihr.type_eq hrhs).trans (hsame.symm.trans (hbool.trans hres.symm))
    refine ihl.binary ihr (reduces.imp_right And.left) ht
      (.operation ht (fun h => by rw [h] at isLogical; cases isLogical) ihl.1 ihr.1 ?_)
    rcases reduces with rfl | ⟨-, rfl⟩
    · exact .inl rfl
    · rcases logicalReduction_cases _ _ _ _ with hkeep | ⟨b, hlit⟩ | ⟨side, hside⟩
      · exact .inl hkeep
      · exact .inr (.inl ⟨.bool b, hres.symm, hlit⟩)
      · cases side with
        | left => exact .inr (.inr (.inl ⟨hleft, hside⟩))
        | right => exact .inr (.inr (.inr ⟨hright, hside⟩))
  | .assign isVar visit coerces, ho, hb, ht => by
    have ih := visit.preserved ho hb (ht.child (.tail _ (.head _)))
    obtain ⟨rfl, htype, hkept⟩ := Preserved.assign isVar ht ih.1 coerces
    refine .of_expression rfl hkept (ih.facts.record fun val hval => ?_)
      ((ih.sameFlow (.expression ht.rule.2.1)).trans (.record _ _ _ _ _))
      fun hu => ⟨fun scope hs =>
        scoped_binary.mpr ((scoped_binary.mp hs).imp_right ((ih.reached hu).inScope scope)),
        fun hf => .validated (congrArg₂ (Form.binary .assign) (congrArg unplaced (validated_of_var isVar).symm)
          ((ih.reached hu).validated hf))⟩
    rw [← type_of_immediate? ih.typed hval, htype]
  | .call visit checks coerces, ho, hb, ht => by
    have ih := visit.preserved ho hb fun node hm => ⟨ht.child hm, .expression (ht.rule.1 node hm)⟩
    refine .of_expression rfl (.call ho.wellFormed ht ih.kept checks coerces) ih.facts ih.sameFlow fun hu =>
      ⟨fun scope hs => scoped_mk.mpr (forall_mem_of_mapM_coerced? (fun pair hm _ hc =>
        (ih.inScope hu scope (scoped_mk.mp hs) _ (of_mem_zip hm).1).coerced? hc) coerces), fun hf => ?_⟩
    -- visited arguments have the types of those that were read, so both are checked alike
    obtain ⟨htypes, hchecked⟩ := Preserved.callChecked ho.wellFormed ht ih.kept checks coerces
    rw [htypes] at checks
    rw [validated_mk, Form.map, validatedForm, List.map_map, show (type ∘ Node.validated _ _) = type
      from funext type_validated, checks]
    refine .mk ?_ (congrArg (Form.call _) (unplaced_of_coerces hf (ih.validated hu hf) coerces))
    rw [show checkedCallType _ _ _ = _ from hchecked.call.type_eq]
  | .foldCall visit checks coerces folds, ho, hb, ht => by
    have ih := visit.preserved ho hb fun node hm => ⟨ht.child hm, .expression (ht.rule.1 node hm)⟩
    exact .of_expression rfl (.foldCall ho.wellFormed ht ih.kept checks coerces folds.2) ih.facts ih.sameFlow
      fun _ => ⟨fun _ _ => scoped_ofValue _, no_fold folds.1⟩
  | .declare, _, hb, ht =>
    .of_init trivial (.refl ht (checked_mk.mpr ⟨trivial, by simp [Form.children]⟩) rfl) (hb.forget _)
      (fun hu => ⟨rfl, hu⟩) rfl fun _ => ⟨fun _ hs => hs, fun _ => .validated rfl⟩
  | .define visit coerces, ho, hb, ht => by
    have ih := visit.preserved ho hb (ht.child (.head _))
    obtain ⟨rfl, htype, hkept⟩ := Preserved.define ht ih.1 coerces
    refine .of_init trivial hkept (ih.facts.record fun val hval => ?_)
      ((ih.sameFlow (.expression (ht.rule.2.2.2 _ rfl).1)).trans (.record _ _ _ _ _)) rfl fun hu =>
      ⟨fun scope hs => ?_,
        fun hf => .validated (congrArg (fun val => Form.declare _ (some val)) ((ih.reached hu).validated hf))⟩
    · rw [← type_of_immediate? ih.typed hval, htype]
    · obtain ⟨hsym, hval⟩ := scoped_mk.mp hs
      refine scoped_mk.mpr ⟨hsym, ?_⟩
      rintro _ ⟨⟩
      exact (ih.reached hu).inScope scope (hval _ rfl)
  | .returnNothing inFunction isVoid, ho, hb, ht => by
    refine ⟨.refl ht (checked_mk.mpr ⟨⟨?_, by simp⟩, by simp [Form.children]⟩) rfl, hb, fun _ =>
      ⟨⟨by rw [ends_mk]; rfl, by rw [exits_mk]; exact .never _, tidy_mk.mpr ⟨trivial,
        by simp [Form.children]⟩⟩,
        fun _ hs => hs, (fun hi => by cases hi), fun _ => .validated rfl⟩⟩
    rw [← ho.type_eq _ inFunction, isVoid]
    rfl
  | .returnValue inFunction isVoid visit coerces, ho, hb, ht => by
    have ih := visit.preserved ho hb (ht.child (.head _))
    rw [ho.type_eq _ inFunction] at isVoid coerces
    have hkept := Preserved.returnValue ho.valid isVoid ht ih.1 coerces
    obtain ⟨hexits, htidy⟩ := exits_tidy_of_isExpression (hkept.typed.child (.head _)) (hkept.typed.rule _ rfl)
    refine ⟨hkept, ih.facts, fun hu =>
      ⟨⟨by rw [ends_mk]; rfl, ?_, tidy_mk.mpr ⟨trivial, forall_mem_singleton.mpr htidy⟩⟩,
      fun scope hs => ?_, (fun hi => by cases hi), fun hf => ?_⟩⟩
    · rw [exits_mk]
      simp only [Form.children, Option.toList_some, exitsAll_cons, hexits, exitsAll_nil]
      exact (ih.sameFlow (.expression (ht.rule _ rfl)) hu).1 ▸ .never _
    · have hval := (ih.reached hu).inScope scope (scoped_mk.mp hs _ (.head _))
      exact scoped_mk.mpr (forall_mem_singleton.mpr (hval.coerced? coerces))
    · rw [eq_castTo hf coerces]
      exact .validated (congrArg (fun val => Form.returnValue (some val))
        (((ih.reached hu).validated hf).castTo res))
  | .breakLoop loops, _, hb, ht | .continueLoop loops, _, hb, ht => by
    refine ⟨.refl ht (checked_mk.mpr ⟨trivial, by simp [Form.children]⟩) rfl, hb, fun _ =>
      ⟨⟨by rw [ends_mk], ?_, tidy_mk.mpr ⟨trivial, by simp [Form.children]⟩⟩, fun _ hs => hs,
        (fun hi => by cases hi),
        fun _ => .validated rfl⟩⟩
    rw [exits_mk, loops]
    simp [LoopExits.Notes, LoopExits.or]
  | .block visit, ho, hb, ht => by
    have ih := visit.preserved ho hb fun node hm => ht.child hm
    have hblock : Visited _ res _ _ _ _ := ⟨.block ht ih.comesFrom, ih.facts, fun hu =>
      ⟨⟨by rw [ih.ends, hu, Bool.false_or, ends_mk], by rw [exits_mk]; exact ih.exits,
        tidy_mk.mpr ⟨ih.last, ih.tidy⟩⟩, fun scope hs => scoped_mk.mpr (ih.inScope scope (scoped_mk.mp hs)),
        fun hi => ih.exports_eq hu hi, fun hf => .validated (congrArg Form.block (ih.validated hu hf))⟩⟩
    split
    · exact hblock
    · exact hblock.forgetAll _
  | .branch visitConds visitBodies, ho, hb, ht => by
    have hh := visitConds.preserved ho hb (typed_mk.mp ht).2
    obtain ⟨hbodies, hafter, hflow, hscope, hvalid⟩ := visitBodies.preserved ho hh.facts hh.fits
    refine ⟨.branch ht hh.fits hh.last hh.comesFrom hbodies, hafter, fun hu => ⟨⟨?_, ?_,
      tidy_mk.mpr ⟨trivial, hflow.tidy⟩⟩, fun scope hs =>
      scoped_mk.mpr (hscope scope (hh.inScope hu scope (scoped_mk.mp hs))), (fun hi => by cases hi), fun hf =>
        .validated (congrArg Form.branch (hvalid hf _ (hh.validated hu hf ht.rule.2)))⟩⟩
    · rw [ends_mk]
      exact hflow.ends
    · rw [exits_mk, ← (hh.sameFlow hu).1]
      exact hflow.exits
  | .noArm fold visitConds, ho, hb, ht => by
    have hh := visitConds.preserved ho hb (typed_mk.mp ht).2
    exact ⟨.nothing rfl rfl rfl, hh.facts, fun hu =>
      ⟨.nothing hh.sameFlow hu, fun _ _ => scoped_nothing, (fun hi => by cases hi), no_fold fold⟩⟩
  | .onlyArm fold visitConds visitBody, ho, hb, ht => by
    have hh := visitConds.preserved ho hb (typed_mk.mp ht).2
    have hfits := hh.fits _ (.head _)
    have ih := visitBody.preserved ho hh.facts hfits.body
    have hblk := ih.isBlock hfits.isBlock
    obtain ⟨arm, harm, hreadsArm, hbody, -⟩ := hh.comesFrom _ (.head _)
    refine ⟨.of_statement rfl rfl rfl ?_ ?_ ih.isStatement ih.typed ih.checked
      (fun hreads => ih.readable ((hreads.child rfl harm).child hreadsArm hbody)) fun hres hw => ?_, ih.facts,
      fun hu => ?_⟩
    · exact (Form.eq_block_of_isBlock hblk).elim fun _ h => by rw [h]; rfl
    · exact (Form.eq_block_of_isBlock hblk).elim fun _ h => by rw [h]; rfl
    · exact ih.words hres ((hw.child harm).child hbody)
    · obtain ⟨hloops, hreachable⟩ := hh.sameFlow hu
      have hflow := ih.reached hreachable
      exact ⟨⟨hflow.ends, hloops ▸ hflow.exits, hflow.tidy⟩, fun scope hs =>
        hflow.inScope scope (hh.inScope hu scope (scoped_mk.mp hs) _ (.head _)).2, (fun hi => by cases hi),
          no_fold fold⟩
  | .removeLoop visitInit visitCond fold _ _, ho, hb, ht => by
    obtain ⟨hinit, hcond, -, -⟩ := ht.loop_flow
    have ihi := visitInit.preserved ho hb hinit
    have ihc := visitCond.preserved ho (ihi.facts.forgetAll _) (hcond _ (.head _)).1
    have hsame := (ihi.sameFlow.trans (.forgetAll _ _)).trans (ihc.sameFlow (.expression (hcond _ (.head _)).2))
    exact ⟨.onlyInit ht fun seen hv => Preserved.of_toList ihi.kept hv, ihc.facts, fun hu =>
      ⟨.onlyInit hsame ihi.kept (fun node hm => (hinit node hm).2) hu, fun scope hs => .onlyInit _
        (ihi.inScope hu scope fun node hm => (scoped_mk.mp hs).1 node (Option.mem_toList.mp hm)),
        (fun hi => by cases hi), no_fold fold⟩⟩
  | .loop visitInit visitCond keeps visitBody visitStep, ho, hb, ht => by
    obtain ⟨hinit, hcond, hstep, hbody⟩ := ht.loop_flow
    have ihi := visitInit.preserved ho hb hinit
    have ihc := visitCond.preserved ho (ihi.facts.forgetAll _) fun node hm => (hcond node hm).imp_right .expression
    have ihb := visitBody.preserved ho ihc.facts hbody
    have ihs := visitStep.preserved ho ihb.facts fun node hm => (hstep node hm).imp_right .expression
    refine ⟨.loop ht (fun seen hv => Preserved.of_toList ihi.kept hv) (fun seen hv => ?_)
      (fun seen hv => Preserved.of_toList ihs.kept hv) ihb.1, ihs.facts, fun hu => ?_⟩
    · rcases keeps with rfl | ⟨-, rfl, -⟩
      · exact Preserved.of_toList ihc.kept hv
      · cases hv
    have hflow := ihb.reached rfl
    have hloops := (ihs.sameFlow rfl).1.trans hflow.exits
    have hstart := fun names => ihi.sameFlow.trans (.forgetAll _ names)
    refine ⟨⟨?_, ?_, tidy_mk.mpr ⟨trivial, fun kid hm => ?_⟩⟩, fun scope hs => ?_, (fun hi => by cases hi),
      fun hf => .validated ?_⟩
    · rw [ends_mk, Facts.exits, hloops]
      change _ = LoopKind.neverEnds _ _ _ _
      rw [← hflow.ends]
      rfl
    · rw [exits_mk]
      change LoopExits.Notes _ _ (tail _)
      rw [hloops, tail_cons, ((hstart _).trans ihc.sameFlow hu).1]
      exact .never _
    · simp only [Form.children, mem_append, mem_singleton] at hm
      rcases hm with ((hm | hm) | rfl) | hm
      · exact ihi.tidy kid hm
      · rcases keeps with rfl | ⟨-, rfl, -⟩
        · exact ihc.tidy kid hm
        · cases hm
      · exact hflow.tidy
      · exact ihs.tidy kid hm
    · obtain ⟨hinitScope, hcondScope, hstepScope, hbodyScope⟩ := scoped_mk.mp hs
      have hexp := ihi.initExports_eq hu
      rw [← getD_initExports, ← getD_initExports] at hexp
      have hinits := ihi.inScope hu scope fun node hm => hinitScope node (Option.mem_toList.mp hm)
      have hconds := ihc.inScope (hstart _ hu).2 _ fun node hm => hcondScope node (Option.mem_toList.mp hm)
      have hsteps := ihs.inScope rfl _ fun node hm => hstepScope node (Option.mem_toList.mp hm)
      rw [scoped_mk, Node.ScopeRule, hexp]
      refine ⟨fun node hm => hinits node (Option.mem_toList.mpr hm), fun node hm => ?_,
        fun node hm => hsteps node (Option.mem_toList.mpr hm), hflow.inScope _ hbodyScope⟩
      rcases keeps with rfl | ⟨-, rfl, -⟩
      · exact hconds node (Option.mem_toList.mpr hm)
      · cases hm
    · obtain rfl := keeps.resolve_right fun h => no_fold h.1 hf
      simp only [Form.map, validatedForm, option_unplaced (ihi.validated hu hf),
        option_unplaced (ihc.validated (hstart _ hu).2 hf), option_unplaced (ihs.validated rfl hf),
        show unplaced _ = unplaced _ from hflow.validated hf]

theorem VisitsAll.preserved {outer pre nodes after seen} : VisitsAll env outer pre nodes after seen →
    ReturnsType env.symbols res outer.function? → pre.Typed env.symbols →
      (∀ node ∈ nodes, node.Typed env.symbols ∧ node.IsInit) → VisitedAll env res pre nodes seen after
  | .nil, _, hb, _ => ⟨.nil, hb, by simp, .refl _, by simp, fun _ => rfl, fun _ _ => rfl⟩
  | .cons visit visitRest, ho, hb, ht => by
    obtain ⟨htyped, hi⟩ := ht _ (.head _)
    have ih := visit.preserved ho hb htyped
    have ihr := visitRest.preserved ho ih.facts (forall_mem_cons.mp ht).2
    have hsame := ih.sameFlow hi
    refine ⟨.cons ih.1 ihr.kept, ihr.facts,
      forall_mem_cons.mpr ⟨(exits_tidy_of_isInit ih.typed (ih.isInit hi)).2, ihr.tidy⟩,
      hsame.trans ihr.sameFlow, fun hu scope hs => ?_, fun hu => ?_,
      fun hu hf => congrArg₂ List.cons ((ih.reached hu).validated hf) (ihr.validated (hsame hu).2 hf)⟩
    · exact forall_mem_cons.mpr ⟨(ih.reached hu).inScope scope (hs _ (.head _)),
        ihr.inScope (hsame hu).2 scope (forall_mem_cons.mp hs).2⟩
    · rw [flatMap_cons, flatMap_cons, (ih.reached hu).initExports_eq hi, ihr.initExports_eq (hsame hu).2]

theorem VisitsStatements.preserved {outer pre nodes after kept declared} :
    VisitsStatements env outer pre nodes after kept declared → ReturnsType env.symbols res outer.function? →
      pre.Typed env.symbols → (∀ node ∈ nodes, node.Typed env.symbols) →
        StatementsVisited env res pre nodes kept after
  | .nil, _, hb, _ => ⟨⟨by simp, .never _, by simp, by simp, fun _ => rfl⟩,
      by simp, hb, fun _ hs => hs, fun _ _ => rfl,
      fun _ _ => rfl⟩
  | .unreachable unreachable, _, hb, _ => by
    have hnot {p : Prop} (hu : Facts.unreachable _ = false) :
        p := absurd (hu.symm.trans unreachable) Bool.false_ne_true
    exact ⟨⟨by simp, .never _, by simp, by simp, fun _ => rfl⟩,
      by simp, hb, fun _ _ => trivial, fun hu => hnot hu,
      fun hu => hnot hu⟩
  | .drop reachable visit isEmpty visitRest, ho, hb, ht => by
    have ihf := visit.preserved ho hb (ht _ (.head _))
    have ih := visitRest.preserved ho ihf.facts (forall_mem_cons.mp ht).2
    obtain ⟨hends, hexits⟩ := flow_of_isEmpty isEmpty.2
    obtain ⟨hloops, hreachable⟩ := Facts.SameFlow.of_flows (fun hu => (ihf.reached hu).1) hends hexits reachable
    have hempty := isDeclare_of_isEmpty isEmpty.2
    refine ⟨⟨?_, hloops ▸ ih.exits, ih.tidy, ih.last, fun h => ?_⟩, fun seen hv => ?_, ih.facts,
      fun scope hs => ?_, fun _ hd => ?_, fun _ hf => no_fold isEmpty.1 hf⟩
    · rw [reachable, ← hreachable]
      exact ih.ends
    · rw [reachable] at h
      cases h
    · obtain ⟨node, hn, h⟩ := ih.comesFrom seen hv
      exact ⟨node, mem_cons_of_mem _ hn, h⟩
    · have hrest := ih.inScope _ hs.2
      rwa [← ihf.exports_eq reachable, exports_eq_nil hempty, nil_append] at hrest
    · rw [ihf.isDeclare_eq, hd _ (.head _)] at hempty
      cases hempty
  | .keep reachable visit visitRest, ho, hb, ht => by
    have ihf := visit.preserved ho hb (ht _ (.head _))
    have ih := visitRest.preserved ho ihf.facts (forall_mem_cons.mp ht).2
    have hexp := ihf.exports_eq reachable
    refine ⟨.cons reachable (ihf.reached reachable).1 ih.1, fun seen hv => ?_, ih.facts,
      fun scope hs => ⟨(ihf.reached reachable).inScope scope hs.1, hexp ▸ ih.inScope _ hs.2⟩, fun _ hd => ?_,
      fun _ hf => ?_⟩
    · rcases mem_cons.mp hv with rfl | hv
      · exact ⟨_, mem_cons_self .., ihf.1⟩
      · obtain ⟨node, hn, h⟩ := ih.comesFrom seen hv
        exact ⟨node, mem_cons_of_mem _ hn, h⟩
    · have hsame := ihf.sameFlow (isInit_iff.mpr (.inr (.inl (hd _ (.head _)))))
      rw [flatMap_cons, flatMap_cons, hexp, ih.exports_eq (hsame reachable).2 (forall_mem_cons.mp hd).2]
    · -- behind a statement that ends nothing is kept
      have hsame := (ihf.reached reachable).validated hf
      rw [map_cons (f := Node.validated _ _), upToEnd, ← hsame.alike.ends_eq, ← (ihf.reached reachable).ends]
      split
      · rename_i hu
        rw [ih.stops hu]
        exact congrArg (· :: []) hsame
      · rename_i hu
        exact congrArg₂ List.cons hsame (ih.validated (Bool.not_eq_true _ ▸ hu) hf)

theorem VisitsConditions.preserved {outer dynamic pre arms after halves} :
    VisitsConditions env outer dynamic pre arms after halves → ReturnsType env.symbols res outer.function? →
      pre.Typed env.symbols → (∀ arm ∈ arms, arm.Typed env.symbols) →
        ConditionsPreserved env res pre arms halves after
  | .nil, _, hb, _ => ⟨by simp, by simp, by simp, hb, .refl _, by simp, fun _ _ _ => .nil⟩
  | .otherwise, _, hb, ht => .single (ht _ (.head _)) hb (.refl _) fun _ => rfl
  | .never visit hfalse visitRest, ho, hb, ht => by
    have harm := ht _ (.head _)
    have ihc := visit.preserved ho hb (harm.child (.head _))
    have hsame := ihc.sameFlow (.expression (harm.rule.1 _ rfl).1)
    have ih := visitRest.preserved ho ihc.facts (forall_mem_cons.mp ht).2
    exact { ih with
      comesFrom := fun half hh => (ih.comesFrom half hh).imp fun _ hfrom => hfrom.imp_left (.tail _)
      sameFlow := hsame.trans ih.sameFlow
      inScope := fun hu scope hs => ih.inScope (hsame hu).2 scope (forall_mem_cons.mp hs).2
      validated := fun _ hf => no_fold hfalse.1 hf }
  | .always visit htrue, ho, hb, ht => by
    have harm := ht _ (.head _)
    have ihc := visit.preserved ho hb (harm.child (.head _))
    exact .single harm ihc.facts (ihc.sameFlow (.expression (harm.rule.1 _ rfl).1)) fun hf => no_fold htrue.1 hf
  | .sometimes visit visitRest, ho, hb, ht => by
    have harm := ht _ (.head _)
    have ihc := visit.preserved ho hb (harm.child (.head _))
    exact .cons harm ihc (visitRest.preserved ho ihc.facts (forall_mem_cons.mp ht).2)

theorem VisitsBodies.preserved {outer hasDefault allUnreachable pre halves after seen unreachable} :
    VisitsBodies env outer hasDefault allUnreachable pre halves after seen unreachable →
      ReturnsType env.symbols res outer.function? → pre.Typed env.symbols →
        (∀ half ∈ halves, half.Fits env.symbols res) →
          List.Forall₂ (HalfArm.Becomes env.symbols res) halves seen ∧ after.Typed env.symbols ∧
            BodiesFlow hasDefault allUnreachable pre seen after unreachable ∧ (∀ scope,
              (∀ half ∈ halves, half.Scoped env.symbols scope) → ∀ arm ∈ seen,
              arm.Scoped env.symbols scope) ∧
              (env.options.fold = false → ∀ arms, List.Forall₂ (HalfArm.From env.symbols res) arms halves →
                seen.map unplaced = (arms.map (Node.validated env.symbols res)).map unplaced)
  | .nil, _, hb, _ => ⟨.nil, hb, ⟨by simp [Bool.and_comm, endsArms], .never _, by simp⟩,
      by simp, fun _ arms h => by
      cases h
      rfl⟩
  | .cons visit visitRest, ho, hb, hh => by
    have hhalf := hh _ (.head _)
    have ihb := visit.preserved ho hb hhalf.body
    obtain ⟨ih, hafter, hflow, hscope, hvalid⟩ := visitRest.preserved ho ihb.facts (forall_mem_cons.mp hh).2
    refine ⟨.cons ⟨_, rfl, ihb.1⟩ ih, hafter, .cons (fun cond hc => hhalf.condition cond hc)
      (ihb.reached rfl).1 hflow,
      fun scope hs => forall_mem_cons.mpr ⟨scoped_mk.mpr fun kid hm => ?_, hscope scope (forall_mem_cons.mp hs).2⟩,
      fun hf arms h => ?_⟩
    · obtain ⟨hcond, hbody⟩ := hs _ (.head _)
      rcases mem_append.mp hm with hm | hm
      · exact hcond kid (Option.mem_toList.mp hm)
      · obtain rfl := mem_singleton.mp hm
        exact (ihb.reached rfl).inScope scope hbody
    · obtain ⟨arm, rest, ⟨cond?, rfl, hcond⟩, hrest, rfl⟩ := forall₂_cons_right_iff.mp h
      exact congrArg₂ List.cons (Near.validated (congrArg₂ Form.arm hcond ((ihb.reached rfl).validated hf)))
        (hvalid hf rest hrest)

end

end Shading
