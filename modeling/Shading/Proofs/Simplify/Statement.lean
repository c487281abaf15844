import Shading.Proofs.Simplify.Expression

/-!
# Visiting statements

Each visitor of `Shading.Simplify.Statement` rebuilds the node and, if the tree
is plain, does what `Visits` says (`TreePass.Performs`).
-/

namespace Shading

open List

variable {plain : Prop} {arms nodes : List Node} {child? : Option Pending} {cond? init? node? step? : Option Node}
  {children : List Pending} {items : List TreePass.BranchItem} {halves : List HalfArm}
  {env : SimplifyEnv} {outer : Surroundings} {own lbl : Label} {pre : Facts} (hl : lbl.unplaced = own.unplaced)
  (hf : plain → outer.function?.isSome = true)

namespace Node

/-- Which symbols are written does not depend on the label. -/
lemma assigned_congr {a b : Node} (h : a.form = b.form) (usage : Usage) : a.assigned usage = b.assigned usage := by
  obtain ⟨lbl, form⟩ := a
  obtain ⟨label', form'⟩ := b
  obtain rfl : form = form' := h
  have hwritten : ∀ uses : List Use, assignedSymbols uses =
      ((uses.map fun use => (use.symbol, use.usage)).filterMap fun use =>
        if use.2.writes then some use.1 else none).eraseDups := by
    intro uses
    rw [assignedSymbols, filterMap_map, ← filterMap_eq_map, filterMap_filter]
    congr 2
  rw [assigned, assigned, hwritten, hwritten, uses, uses, fold_mk, fold_mk]
  congr 2
  cases form with
  | var sym => rfl
  | declare sym ini? => cases ini? <;> simp [Form.map, formUses]
  | binary op lhs rhs => cases op <;> rfl
  | _ => rfl

end Node

namespace TreePass

/-! ## Blocks -/

include hf in
lemma visitStatements_acts {kept : List Node} {declared : List SymbolId}
    (hc : List.Forall₂ (Pending.StandsFor plain env) children nodes) :
    Acts plain [.mk lbl (.block (kept ++ children.map Pending.node))] pre
    (visitStatements env outer kept declared children)
      (fun res => [.mk lbl (.block res.1)]) fun res after => ∃ more others,
        res = (kept ++ more, declared ++ others) ∧
        (plain → VisitsStatements env outer.statement pre nodes after more others) := by
  induction hc generalizing pre kept declared with
  | nil => exact .same (by rw [map_nil, append_nil]) ⟨[], [], by simp, fun _ => .nil⟩
  | cons hfirst hrest ih =>
    rename_i kid node children nodes
    rw [visitStatements]
    refine .isUnreachable ?_
    split
    · rename_i hunreachable
      exact .seq .countChange
        (.pure (fun low => .node rfl rfl rfl ((Rebuilt.refl low _).sublist (sublist_append_left ..)))
        ⟨[], [], by simp, fun _ => .unreachable hunreachable⟩)
    · rename_i hunreachable
      have hreachable := Bool.not_eq_true _ ▸ hunreachable
      refine .bind (.inside (fun node => .block (kept ++ [node] ++ children.map Pending.node)) kept
        (children.map Pending.node)
        (hfirst.run hf) (by simp [Form.children]) fun _ => rfl) fun seen mid hvisits => ?_
      suffices hrun : ∀ noted, noted = declared ++ seen.exports → Acts plain
          [.mk lbl (.block (kept ++ [seen] ++ children.map Pending.node))] mid
          (if env.options.fold && seen.form.isEmpty then visitStatements env outer kept noted children
            else visitStatements env outer (kept ++ [seen]) noted children) _ _ by
        refine hrun _ ?_
        rw [Node.exports]
        split <;> simp_all
      rintro _ rfl
      split
      · rename_i hempty
        have hempty : env.options.fold = true ∧ seen.form.isEmpty = true := Bool.and_eq_true _ _ ▸ hempty
        refine .of_rebuilt (fun low => .node rfl rfl rfl ((Rebuilt.refl low _).sublist
          ((sublist_append_left kept [seen]).append_right _))) (ih.imp ?_)
        rintro _ after ⟨more, others, rfl, hmore⟩
        refine ⟨more, others, ?_, fun hp => .drop hreachable (hvisits hp) hempty (hmore hp)⟩
        rw [Node.exports_eq_nil, append_nil]
        replace hempty := hempty.2
        revert hempty
        cases seen.form <;> simp [Form.isEmpty, Form.isDeclare]
      · refine ih.imp ?_
        rintro _ after ⟨more, others, rfl, hmore⟩
        exact ⟨seen :: more, seen.exports ++ others, by simp, fun hp => .keep hreachable (hvisits hp) (hmore hp)⟩

include hl hf in
lemma visitBlock_performs (hc : List.Forall₂ (Pending.StandsFor plain env) children nodes) :
    Performs plain env outer (.mk own (.block nodes)) (.mk lbl (.block (children.map Pending.node)))
      (visitBlock env outer lbl children) := by
  have hstart : [Node.mk lbl (.block ([] ++ children.map Pending.node))] =
      [.mk lbl (.block (children.map Pending.node))] := rfl
  refine fun pre => (hstart ▸ visitStatements_acts hf hc).bind ?_
  rintro _ mid ⟨kept, declared, rfl, hvisits⟩
  have hblk (hp : plain) : Visits env outer pre (.mk own (.block nodes))
      (if outer.place = .functionBody then mid else mid.forgetAll declared) (.mk lbl (.block kept)) :=
    .relabel (.block (hvisits hp)) (.relabel hl.symm _)
  dsimp only
  by_cases hplace : outer.place = .functionBody
  · rw [if_pos hplace] at hblk
    rw [if_neg (by simpa using hplace)]
    exact .same rfl hblk
  · rw [if_neg hplace] at hblk
    rw [if_pos hplace]
    exact .seq (.forgetAll _) (.same rfl hblk)

/-! ## Branches -/

end TreePass

/-- A child of a branch that stands for an arm, or for something else if the tree
is not plain. -/
structure TreePass.PendingArm.StandsFor (plain : Prop) (env : SimplifyEnv) (child : TreePass.PendingArm)
    (arm : Node) : Prop where
  label_eq : child.node.label.unplaced = arm.label.unplaced
  isArm : plain → child.parts?.isSome = true
  parts : ∀ conditionVisit? bodyVisit, child.parts? = some (conditionVisit?, bodyVisit) →
    child.node.form = .arm (conditionVisit?.map Pending.node) bodyVisit.node ∧ ∃ cond? body,
    arm.form = .arm cond? body ∧
      Option.Rel (Pending.StandsFor plain env) conditionVisit? cond? ∧ bodyVisit.StandsFor plain env body

/-- An arm whose condition was visited. -/
structure TreePass.OpenArm.StandsFor (plain : Prop) (env : SimplifyEnv) (arm : TreePass.OpenArm)
    (half : HalfArm) : Prop where
  label_eq : arm.label.unplaced = half.label.unplaced
  condition?_eq : arm.condition? = half.condition?
  body : arm.body.StandsFor plain env half.body

namespace TreePass

/-- The item as it stands in the branch, its body not yet visited. -/
def BranchItem.node : BranchItem → Node
  | .arm inside => inside.close inside.body.node
  | .other node => node

/-- The arms among the items stand for others. -/
inductive ArmsStandFor (plain : Prop) (env : SimplifyEnv) : List BranchItem → List HalfArm → Prop
  | nil : ArmsStandFor plain env [] []
  | arm {inside half items halves} (first : inside.StandsFor plain env half)
      (rest : ArmsStandFor plain env items halves) :
      ArmsStandFor plain env (.arm inside :: items) (half :: halves)
  | other {node items halves} (rest : ArmsStandFor plain env items halves) :
      ArmsStandFor plain env (.other node :: items) halves

lemma ArmsStandFor.append_others (h : ArmsStandFor plain env items halves) (others : List PendingArm) :
    ArmsStandFor plain env (items ++ others.map (.other ·.node)) halves := by
  induction h with
  | nil =>
    induction others with
    | nil => exact .nil
    | cons _ _ ih => exact .other ih
  | arm first _ ih => exact .arm first ih
  | other _ ih => exact .other ih

/-- The arms that are open, among the items. -/
lemma ArmsStandFor.opened (h : ArmsStandFor plain env items halves) :
    ArmsStandFor plain env ((items.filterMap BranchItem.arm?).map .arm) halves ∧
      (((items.filterMap BranchItem.arm?).map .arm).map BranchItem.node).Sublist (items.map BranchItem.node) := by
  induction h with
  | nil => exact ⟨.nil, .slnil⟩
  | arm first _ ih => exact ⟨.arm first ih.1, ih.2.cons_cons _⟩
  | other _ ih => exact ⟨ih.1, ih.2.cons _⟩

/-- Arms behind one that always runs are not visited. -/
lemma rebuilt_behindDefault {low : Nat} {body : Pending} {rest : List PendingArm} {armLabel : Label} :
    Rebuilt low low [.mk lbl (.branch (items.map BranchItem.node ++ .mk armLabel (.arm cond? body.node) ::
        rest.map PendingArm.node))]
      [.mk lbl (.branch ((items ++ [BranchItem.arm ⟨armLabel, none, body⟩] ++
        rest.map (BranchItem.other ·.node)).map BranchItem.node))] := by
  have harm : Rebuilt low low [.mk armLabel (.arm cond? body.node)] [.mk armLabel (.arm none body.node)] :=
    .node rfl rfl rfl ((Rebuilt.refl low _).sublist (sublist_append_right ..))
  have hframe := harm.frame (items.map BranchItem.node) (rest.map PendingArm.node)
  refine .node rfl rfl rfl ?_
  simpa [Form.children, BranchItem.node, OpenArm.close, Function.comp_def] using hframe

/-- Without folding all children of a plain branch are kept, with it conditions
that are known are gone. -/
structure Sifted (env : SimplifyEnv) (items : List BranchItem) : Prop where
  kept : env.options.fold = false → ∀ node, .other node ∉ items
  unknown : env.options.fold = true → ∀ arm, .arm arm ∈ items → ∀ cond ∈ arm.condition?,
    cond.literalCondition? = none

section

variable {children : List PendingArm} (hc : List.Forall₂ (PendingArm.StandsFor plain env) children arms)
  (hlast : plain → ∀ arm ∈ arms.dropLast, arm.form.isElse = false)

include hf hc hlast in
lemma visitConditions_acts (items : List BranchItem) (dynamic : Bool) (pre : Facts) :
    Acts plain [.mk lbl (.branch (items.map BranchItem.node ++ children.map PendingArm.node))] pre
      (visitConditions env outer items dynamic children) (fun res => [.mk lbl (.branch (res.map BranchItem.node))])
      fun res after => ∃ more halves, res = items ++ more ∧ ArmsStandFor plain env more halves ∧
        (plain → VisitsConditions env outer dynamic pre arms after halves ∧ Sifted env more) := by
  induction hc generalizing items dynamic pre with
  | nil => exact .same (by rw [map_nil, append_nil]) ⟨[], [], by simp, .nil, fun _ => ⟨.nil, by simp, by simp⟩⟩
  | cons hfirst hrest ih =>
    rename_i kid arm children arms
    obtain ⟨node, parts?⟩ := kid
    have hlastRest : plain → ∀ arm ∈ arms.dropLast, arm.form.isElse = false := by
      intro hp arm hm
      refine hlast hp arm ?_
      cases arms with
      | nil => cases hm
      | cons second rest => exact mem_cons_of_mem _ hm
    replace ih := ih hlastRest
    cases parts? with
    | none =>
      have hother := ih (items ++ [.other node]) dynamic pre
      rw [map_append, append_assoc] at hother
      refine hother.imp ?_
      rintro _ after ⟨more, halves, rfl, hmore, -⟩
      exact ⟨.other node :: more, halves, by simp, .other hmore, fun hp => by cases hfirst.isArm hp⟩
    | some parts =>
      obtain ⟨conditionVisit?, bodyVisit⟩ := parts
      obtain ⟨hform, cond?, body, harm, hcond, hbody⟩ := hfirst.parts _ _ rfl
      have hlabel := hfirst.label_eq
      obtain ⟨armLabel, form⟩ := arm
      obtain rfl : form = .arm cond? body := harm
      obtain ⟨slot, form⟩ := node
      obtain rfl : form = .arm (conditionVisit?.map Pending.node) bodyVisit.node := hform
      have hstands : ArmsStandFor plain env ([.arm ⟨slot, none, bodyVisit⟩] ++ children.map (.other ·.node))
          [⟨armLabel, none, body⟩] :=
        .append_others (.arm ⟨hlabel, rfl, hbody⟩ .nil) children
      cases hcond with
      | none =>
        refine .pure (fun _ => rebuilt_behindDefault) ⟨_, _, append_assoc .., hstands, fun hp =>
          ⟨.otherwise, fun _ => ?_, by simp⟩⟩
        cases hrest with
        | nil => simp
        | cons => exact absurd (hlast hp _ (.head _)) (by simp [Form.isElse])
      | @some condVisit cond hcond =>
        rw [visitConditions]
        have harm (outer : Surroundings) (hf : plain → outer.function?.isSome = true) :
            Acts plain [.mk slot (.arm (some condVisit.node) bodyVisit.node)] pre (condVisit.run outer)
              (fun seen => [.mk slot (.arm (some seen) bodyVisit.node)]) fun seen after => plain →
              Visits env outer pre cond after seen :=
          .inside (fun seen => .arm (some seen) bodyVisit.node) [] [bodyVisit.node] (hcond.run hf) rfl fun _ => rfl
        refine .bind (.inside (fun seen => .branch (items.map BranchItem.node ++
          .mk slot (.arm (some seen) bodyVisit.node) :: children.map PendingArm.node)) (items.map BranchItem.node)
            (children.map PendingArm.node) (harm _ hf) (by simp [Form.children]) fun _ =>
            by simp [Form.children]) fun seen mid hvisits => ?_
        generalize hlit : (if env.options.fold then seen.literalCondition? else none) = literal?
        obtain _ | _ | _ := literal?
        rotate_left
        · refine .seq .countChange (.of_rebuilt (fun low => .node rfl rfl rfl ((Rebuilt.refl _ _).sublist
            ((sublist_cons_self ..).append_left _))) ((ih items dynamic mid).imp ?_))
          rintro res after ⟨more, halves, hres, hmore, hgood⟩
          refine ⟨more, halves, hres, hmore, fun hp => ⟨.never (hvisits hp) ?_ (hgood hp).1, (hgood hp).2⟩⟩
          split at hlit
          · rename_i hfold
            exact ⟨hfold, hlit⟩
          · cases hlit
        · split at hlit
          · rename_i hfold
            exact .seq .countChange (.pure (fun _ => rebuilt_behindDefault) ⟨_, _, append_assoc .., hstands,
              fun hp => ⟨.always (hvisits hp) ⟨hfold, hlit⟩, by simp [hfold], by simp⟩⟩)
          · cases hlit
        · have hopen := ih (items ++ [.arm ⟨slot, some seen, bodyVisit⟩]) true mid
          rw [map_append, append_assoc] at hopen
          refine hopen.imp ?_
          rintro _ after ⟨more, halves, rfl, hmore, hgood⟩
          refine ⟨.arm ⟨slot, some seen, bodyVisit⟩ :: more, ⟨armLabel, some seen, body⟩ :: halves, by simp,
            .arm ⟨hlabel, rfl, hbody⟩ hmore, fun hp => ⟨.sometimes (hvisits hp) (hgood hp).1,
              fun hfold node hm => ?_, fun hfold arm hm => ?_⟩⟩
          · cases hm with
            | tail _ hm => exact (hgood hp).2.kept hfold node hm
          · cases hm with
            | head =>
              rintro _ ⟨⟩
              rwa [if_pos hfold] at hlit
            | tail _ hm => exact (hgood hp).2.unknown hfold arm hm

include hf in
lemma visitBodies_acts (hc : ArmsStandFor plain env items halves) (done : List Node)
    (hasDefault allUnreachable : Bool) (pre : Facts) :
    Acts plain [.mk lbl (.branch (done ++ items.map BranchItem.node))] pre
    (visitBodies outer done hasDefault allUnreachable items)
      (fun res => [.mk lbl (.branch res.1)]) fun res after => plain → (∀ node, .other node ∉ items) →
      ∃ more seen,
        res.1 = done ++ more ∧ seen.map (Node.blur env.options.fold) = more.map (Node.blur env.options.fold) ∧
          VisitsBodies env outer hasDefault allUnreachable pre halves after seen res.2 := by
  induction hc generalizing done hasDefault allUnreachable pre with
  | nil => exact .same (by rw [map_nil, append_nil]) fun _ _ => ⟨[], [], by simp, rfl, .nil⟩
  | @other node items halves _ ih =>
    have hrest := ih (done ++ [node]) hasDefault allUnreachable pre
    rw [append_assoc] at hrest
    exact hrest.imp fun _ _ _ _ hothers => absurd (.head _) (hothers node)
  | @arm arm half items halves hfirst _ ih =>
    have harm : Acts plain [arm.close arm.body.node] (pre.setUnreachable false) (arm.body.run outer.sometimes)
      (fun body => [arm.close body])
        fun body after => plain → Visits env outer.sometimes (pre.setUnreachable false) half.body after body :=
      .inside (fun body => .arm arm.condition? body) arm.condition?.toList [] (hfirst.body.run hf)
        (append_nil _).symm fun _ => (append_nil _).symm
    rw [visitBodies]
    refine .seq (.setUnreachable false)
      (.bind (.inside (fun body => .branch (done ++ [arm.close body] ++ items.map BranchItem.node)) done
      (items.map BranchItem.node) harm (by rw [append_assoc]; rfl) fun _ => rfl) fun body mid hvisits => ?_)
    have hdef : arm.isDefault = half.isDefault := by
      rw [OpenArm.isDefault, HalfArm.isDefault, hfirst.condition?_eq]
    have hclose : (Node.mk half.label (.arm half.condition? body)).Near env.options.fold (arm.close body) := by
      rw [OpenArm.close, hfirst.condition?_eq]
      exact .relabel hfirst.label_eq.symm _
    have hgo {hasDefault' allUnreachable' : Bool} (hseen : hasDefault' = (hasDefault || half.isDefault))
        (hall : allUnreachable' = (if hasDefault then allUnreachable else allUnreachable && mid.unreachable)) :
        Acts plain [.mk lbl (.branch (done ++ [arm.close body] ++ items.map BranchItem.node))] mid
          (visitBodies outer (done ++ [arm.close body]) hasDefault' allUnreachable' items) (fun res =>
            [.mk lbl (.branch res.1)])
          fun res after => plain → (∀ node, .other node ∉ BranchItem.arm arm :: items) → ∃ more seen,
          res.1 = done ++ more ∧ seen.map (Node.blur env.options.fold) = more.map (Node.blur env.options.fold) ∧
              VisitsBodies env outer hasDefault allUnreachable pre (half :: halves) after seen res.2 := by
      subst hseen hall
      refine (ih _ _ _ mid).imp fun res after hrest hp hothers => ?_
      obtain ⟨more, seen, heq, hsame, hbodies⟩ := hrest hp fun node hm => hothers node (.tail _ hm)
      refine ⟨arm.close body :: more, .mk half.label (.arm half.condition? body) :: seen, by simp [heq], ?_,
        .cons (hvisits hp) hbodies⟩
      rw [map_cons, map_cons, hclose, hsame]
    dsimp only
    cases hasDefault with
    | true => exact hgo rfl rfl
    | false => exact .isUnreachable (hgo hdef rfl)

include hl hf in
lemma visitArms_acts {mid : Facts}
    (hc : ArmsStandFor plain env items halves) (hothers : plain → ∀ node, .other node ∉ items)
    (hconds : plain → VisitsConditions env outer false pre arms mid halves) :
    Acts plain [.mk lbl (.branch (items.map BranchItem.node))] mid (visitArms outer lbl items) (fun res => [res])
      fun res after => plain → Visits env outer pre (.mk own (.branch arms)) after res := by
  have hstart : [Node.mk lbl (.branch ([] ++ items.map BranchItem.node))] =
      [.mk lbl (.branch (items.map BranchItem.node))] := rfl
  refine (hstart ▸ visitBodies_acts hf hc [] false true mid).bind fun res last hbodies =>
    .seq (.setUnreachable _) (.same rfl fun hp => ?_)
  obtain ⟨more, seen, heq, hsame, hvisits⟩ := hbodies hp (hothers hp)
  rw [heq]
  exact .relabel (.branch (hconds hp) hvisits) (.mk hl.symm (congrArg Form.branch hsame))

include hl hf hc hlast in
lemma visitBranch_performs :
    Performs plain env outer (.mk own (.branch arms)) (.mk lbl (.branch (children.map PendingArm.node)))
      (visitBranch env outer lbl children) := by
  refine fun pre => (visitConditions_acts hf hc hlast [] false pre).bind ?_
  rintro items mid ⟨_, halves, rfl, hstand, hgood⟩
  cases hfold : env.options.fold with
  | false =>
    rw [if_pos (by simp)]
    exact visitArms_acts hl hf hstand (fun hp => (hgood hp).2.kept hfold) fun hp => (hgood hp).1
  | true =>
    obtain ⟨hopened, hsub⟩ := hstand.opened
    have hunknown (hp : plain) : ∀ arm ∈ items.filterMap BranchItem.arm?, ∀ cond ∈ arm.condition?,
        cond.literalCondition? = none := by
      intro arm hm
      obtain ⟨item, hitem, heq⟩ := mem_filterMap.mp hm
      cases item with
      | arm inside =>
        cases heq
        exact (hgood hp).2.unknown hfold _ hitem
      | other node => cases heq
    have hopen (low : Nat) : Rebuilt low low [.mk lbl (.branch (items.map BranchItem.node))]
        [.mk lbl (.branch (((items.filterMap BranchItem.arm?).map .arm).map BranchItem.node))] :=
      .node rfl rfl rfl ((Rebuilt.refl low _).sublist hsub)
    rw [if_neg (by simp)]
    refine .of_rebuilt hopen ?_
    generalize items.filterMap BranchItem.arm? = opened at hopened hunknown ⊢
    have hothers : ∀ node, BranchItem.other node ∉ opened.map .arm := by simp
    cases opened with
    | nil =>
      cases hopened
      exact .pure (fun _ => .leaf rfl rfl rfl rfl) fun hp => .relabel (.noArm hfold (hgood hp).1)
        (.of_alike (.mk rfl rfl) hfold)
    | cons arm opened =>
      cases opened with
      | cons => exact visitArms_acts hl hf hopened (fun _ => hothers) fun hp => (hgood hp).1
      | nil =>
        dsimp only
        split
        · rename_i hdef
          cases hopened with
          | @arm _ half _ _ hfirst hrest =>
            cases hrest
            let slot : Label := { lbl with type := arm.body.node.type, span := arm.body.node.span }
            have hmove (low : Nat) : Rebuilt low low [.mk lbl (.branch [BranchItem.node (.arm arm)])]
                [.mk slot (Node.adopt slot.id arm.body.node.form)] := by
              have hbody : Numbered low low [BranchItem.node (.arm arm)] [arm.body.node] :=
                (Numbered.refl low [BranchItem.node (.arm arm)]).inside.sublist (sublist_append_right ..)
              refine .adopted rfl rfl hbody.inside fun _ hs => ?_
              have harm := hs.child (.head _)
              exact (harm.child (mem_append_right _ (mem_singleton_self arm.body.node))).relabel rfl
            have hvisits : Performs plain env outer half.body (.mk slot (Node.adopt slot.id arm.body.node.form))
                (arm.body.visit outer slot) :=
              hfirst.body.visits id hf hfirst.body.label_eq
            refine .of_rebuilt hmove ((hvisits mid).imp fun _ _ hvisit hp => ?_)
            obtain ⟨armLabel, cond?, body⟩ := half
            obtain rfl : cond? = none := by
              refine hfirst.condition?_eq.symm.trans ?_
              cases hcond : arm.condition? with
              | none => rfl
              | some cond =>
                have := hunknown hp arm (.head _) cond (by rw [hcond]; rfl)
                rw [OpenArm.isDefault, hcond, Option.all_some, this] at hdef
                cases hdef
            exact .onlyArm hfold (hgood hp).1 (hvisit hp)
        · exact visitArms_acts hl hf hopened (fun _ => hothers) fun hp => (hgood hp).1

end

/-! ## Loops -/

include hf in
lemma run_mapM_option_acts (hc : Option.Rel (Pending.StandsFor plain env) child? node?) :
    Acts plain (child?.map Pending.node).toList pre (child?.mapM fun kid => kid.run outer) Option.toList
      fun result? after => plain → VisitsAll env outer pre node?.toList after result?.toList := by
  cases hc with
  | none => exact .same rfl fun _ => .nil
  | some hkid => exact .bind (hkid.run hf) fun _ _ h => .same rfl fun hp => .cons (h hp) .nil

/-- What was visited of a loop before its body. -/
structure LoopParts.StandsFor (plain : Prop) (env : SimplifyEnv) (parts : LoopParts) (step? : Option Node)
    (body : Node) : Prop where
  step : Option.Rel (Pending.StandsFor plain env) parts.step? step?
  body : parts.body.StandsFor plain env body

include hl hf in
lemma visitRound_acts {parts : LoopParts} {visited? kept? : Option Node} {body : Node}
    {afterInit afterCondition : Facts}
    (hc : parts.StandsFor plain env step? body)
    (hinit : plain → VisitsAll env outer.nested pre init?.toList afterInit parts.init?.toList)
    (hcond : plain → VisitsAll env outer.sometimes (afterInit.forgetAll (roundAssigned cond? step? body))
      cond?.toList afterCondition visited?.toList)
    (hkeeps : kept? = visited? ∨ env.options.fold = true ∧
      kept? = none ∧ visited?.all (fun cond => cond.literalCondition? = some true) = true) :
    Acts plain [.mk lbl (.loop parts.kind parts.init? kept? (parts.step?.map Pending.node) parts.body.node)]
    afterCondition (visitRound outer lbl parts kept?) (fun res => [res]) fun res after =>
        plain → Visits env outer pre (.mk own (.loop parts.kind init? cond? step? body)) after res := by
  obtain ⟨kind, visitedInit?, conditionVisit?, stepVisit?, bodyVisit⟩ := parts
  obtain ⟨hstepFor, hbodyFor⟩ := hc
  refine .seq .openLoop
    (.bind (.inside (fun body => .loop kind visitedInit? kept? (stepVisit?.map Pending.node) body)
    (visitedInit?.toList ++ kept?.toList) (stepVisit?.map Pending.node).toList (hbodyFor.run hf) rfl fun _ => rfl)
      fun visitedBody afterBody hbodyVisits => .isUnreachable ?_)
  -- Without a step the flag stays, but then it is overwritten.
  have hstep : Acts plain (stepVisit?.map Pending.node).toList afterBody (stepVisit?.mapM fun step => do
      Simplify.setUnreachable false
      step.run { outer.sometimes with place := .statement }) Option.toList fun visitedStep? last => ∃ after,
      after.exits = last.exits ∧
        (∀ unreachable, after.closeLoop.setUnreachable unreachable = last.closeLoop.setUnreachable unreachable) ∧
        (plain → VisitsAll env { outer.sometimes with place := .statement } (afterBody.setUnreachable false)
          step?.toList after visitedStep?.toList) := by
    cases hstepFor with
    | none => exact .same rfl ⟨afterBody.setUnreachable false, rfl, fun _ => rfl, fun _ => .nil⟩
    | some hkid =>
      exact .bind (.seq (.setUnreachable false) (hkid.run hf)) fun _ _ h =>
        .same rfl ⟨_, rfl, fun _ => rfl, fun hp => .cons (h hp) .nil⟩
  refine .bind (.inside (fun step? => .loop kind visitedInit? kept? step? visitedBody) (visitedInit?.toList ++
    kept?.toList ++ [visitedBody]) [] hstep (append_nil _).symm fun _ => (append_nil _).symm) ?_
  rintro visitedStep? last ⟨after, hexits, hafter, hstepVisits⟩
  refine Acts.closeLoop.bind ?_
  rintro _ _ ⟨rfl, rfl⟩
  refine .seq (.setUnreachable _) (.same rfl fun hp => ?_)
  rw [← hexits, ← hafter]
  exact .relabel (.loop (hinit hp) (hcond hp) hkeeps (hbodyVisits hp) (hstepVisits hp)) (.relabel hl.symm _)

lemma assigned_toList_eq (hc : Option.Rel (Pending.StandsFor plain env) child? node?) :
    child?.toList.flatMap (·.node.assigned .read) = node?.toList.flatMap (·.assigned .read) := by
  cases hc with
  | none => rfl
  | some hkid => simp [Node.assigned_congr hkid.form_eq]

include hl hf in
lemma visitLoop_performs {kind : LoopKind} {initVisit? conditionVisit? stepVisit? : Option Pending}
    {bodyVisit : Pending} {body : Node}
    (hinit : Option.Rel (Pending.StandsFor plain env) initVisit? init?)
    (hcond : Option.Rel (Pending.StandsFor plain env) conditionVisit? cond?)
    (hstep : Option.Rel (Pending.StandsFor plain env) stepVisit? step?)
    (hbody : bodyVisit.StandsFor plain env body) :
    Performs plain env outer (.mk own (.loop kind init? cond? step? body))
      (.mk lbl (.loop kind (initVisit?.map Pending.node) (conditionVisit?.map Pending.node)
        (stepVisit?.map Pending.node) bodyVisit.node))
      (visitLoop env outer lbl kind initVisit? conditionVisit? stepVisit? bodyVisit) := by
  refine fun pre => .bind (.inside (fun init? => .loop kind init? (conditionVisit?.map Pending.node)
    (stepVisit?.map Pending.node)
    bodyVisit.node) [] ((conditionVisit?.map Pending.node).toList ++ [bodyVisit.node] ++
    (stepVisit?.map Pending.node).toList)
      (run_mapM_option_acts hf hinit) (by simp [Form.children]) fun _ => by simp [Form.children])
        fun visitedInit? afterInit hinitVisits => ?_
  have hassigned : LoopParts.assigned ⟨kind, visitedInit?, conditionVisit?, stepVisit?, bodyVisit⟩ =
      roundAssigned cond? step? body := by
    rw [LoopParts.assigned, roundAssigned, flatMap_append, flatMap_append, flatMap_append,
      flatMap_append, assigned_toList_eq hcond, assigned_toList_eq hstep, flatMap_singleton,
      flatMap_singleton, Node.assigned_congr hbody.form_eq]
  have hparts : LoopParts.StandsFor plain env ⟨kind, visitedInit?, conditionVisit?, stepVisit?,
      bodyVisit⟩ step? body :=
    ⟨hstep, hbody⟩
  dsimp only
  rw [hassigned]
  refine .seq (.forgetAll _) ?_
  cases hcond with
  | none =>
    have hnothing (_ : plain) : VisitsAll env outer.sometimes (afterInit.forgetAll (roundAssigned none step? body))
        (none : Option Node).toList _ (none : Option Node).toList := .nil
    exact visitRound_acts hl hf hparts hinitVisits hnothing (.inl rfl)
  | @some conditionVisit cond hconditionFor =>
    refine .bind (.inside (fun cond => .loop kind visitedInit? (some cond) (stepVisit?.map Pending.node)
      bodyVisit.node)
      visitedInit?.toList ([bodyVisit.node] ++ (stepVisit?.map Pending.node).toList) (hconditionFor.run hf)
      (by simp [Form.children]) fun _ => by simp [Form.children]) fun seen afterCondition hvisits => ?_
    have hvisitsAll (hp : plain) :
      VisitsAll env outer.sometimes (afterInit.forgetAll (roundAssigned (some cond) step? body))
        (some cond).toList afterCondition (some seen).toList := .cons (hvisits hp) .nil
    generalize hlit : (if env.options.fold then seen.literalCondition? else none) = literal?
    obtain _ | _ | _ := literal?
    rotate_left
    · split at hlit
      · rename_i hfold
        dsimp only
        split
        · rename_i hpretest
          have hremove (hp : plain) : Visits env outer pre _ afterCondition (.onlyInit own visitedInit?) :=
            .removeLoop (hinitVisits hp) (hvisits hp) hfold hlit hpretest
          refine .seq .countChange ?_
          cases visitedInit? with
          | some init =>
            exact .pure (fun _ => .adopts_some rfl rfl rfl (sublist_append_left [_] _)) fun hp =>
              .relabel (hremove hp) (.trans (.relabel hl.symm _) (.of_alike (.withForm (.mk lbl .empty) _) hfold))
          | none => exact .pure (fun _ => .leaf rfl rfl rfl rfl) fun hp =>
            .relabel (hremove hp) (.of_alike (.mk rfl rfl) hfold)
        · exact visitRound_acts hl hf hparts hinitVisits hvisitsAll (.inl rfl)
      · cases hlit
    · refine .seq .countChange
        (.of_rebuilt (fun low => .node rfl rfl rfl ((Rebuilt.refl low _).sublist (by simp [Form.children])))
        (visitRound_acts hl hf hparts hinitVisits hvisitsAll (.inr ?_)))
      split at hlit
      · rename_i hfold
        exact ⟨hfold, rfl, by simp [hlit]⟩
      · cases hlit
    · exact visitRound_acts hl hf hparts hinitVisits hvisitsAll (.inl rfl)

/-! ## Returns -/

lemma checkReturn_acts {old : List Node} {span : Span} (fn : Symbol) (h : span ∈ old.map Node.span)
    (hasValue : Bool) :
    Acts plain old pre (fn.checkReturn span hasValue) (fun _ => old) fun _ after => after = pre ∧
    fn.type.isVoid = !hasValue := by
  cases hvoid : fn.type.isVoid <;> cases hasValue <;> simp only [Symbol.checkReturn, hvoid]
  · exact .fail h _
  · exact .same rfl ⟨rfl, rfl⟩
  · exact .same rfl ⟨rfl, rfl⟩
  · exact .fail h _

include hl hf in
lemma visitReturn_performs (hc : Option.Rel (Pending.StandsFor plain env) child? node?) :
    Performs plain env outer (.mk own (.returnValue node?)) (.mk lbl (.returnValue (child?.map Pending.node)))
      (visitReturn env outer lbl child?) := by
  intro pre
  rw [visitReturn]
  cases hfn : outer.function? with
  | none =>
    refine .seq (.setUnreachable true) (.same rfl fun hp => ?_)
    have hsome := hf hp
    rw [hfn] at hsome
    cases hsome
  | some fn =>
    refine (checkReturn_acts _ (.head _) _).bind ?_
    rintro _ pre ⟨rfl, hvoid⟩
    have hval : Acts plain (child?.map Pending.node).toList pre
        (child?.mapM fun val => do coerce env (← val.run outer.nested) (env.symbols.get fn).type) Option.toList
        fun value? after => plain → Visits env outer pre (.mk own (.returnValue node?)) (after.setUnreachable true)
          (.mk lbl (.returnValue value?)) := by
      cases hc with
      | none => exact .same rfl fun _ => .relabel (.returnNothing hfn hvoid) (.relabel hl.symm _)
      | some hkid =>
        refine Acts.bind (.bind (hkid.run hf) fun seen mid hvisit => (coerce_acts seen _).imp ?_) fun _ _ h =>
          .same rfl h
        rintro res _ ⟨rfl, coerced, hco, halike⟩ hp
        refine .relabel (.returnValue hfn hvoid (hvisit hp) hco) (.mk hl.symm ?_)
        exact congrArg (fun val => Form.returnValue (some val)) halike
    exact .bind (.inside (fun value? => .returnValue value?) [] [] hval (append_nil _).symm fun _ =>
      (append_nil _).symm) fun _ _ h => .seq (.setUnreachable true) (.same rfl h)

end TreePass

end Shading
