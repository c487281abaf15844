import Mathlib.Data.List.Forall2
import Shading.Proofs.Parse.Program
import Shading.Proofs.Simplify.Statement
import Shading.Proofs.Simplify.Sweep

/-!
# The pass as a relation

`TreePass.stands_of_linked`: a visit of a linked tree rebuilds it, and if the
tree is typed it is one of `Visits`.  `Program.simplify_ok` says what becomes of
a program, with numbers and links (`Program.Numbered.simplify`) and spans
(`Program.Numbered.spanned_simplify`).
-/

namespace Shading

open List

variable {s last : SimplifyState Nat} {outer : Surroundings} {functions results : List Node} {prog : Program}
  {options : Options} {out : Simplified} {low : Nat} {tbl : SymbolTable} {pre kid : Node} {plain : Prop}
  {own : Label}

/-! ## Sweeps -/

lemma Rebuilt.pairs {pairs : List (Node × Node)} (h : ∀ pair ∈ pairs, Rebuilt low low [pair.1] [pair.2]) :
    Rebuilt low low (pairs.map Prod.fst) (pairs.map Prod.snd) := by
  induction pairs with
  | nil => exact .refl low []
  | cons pair rest ih =>
    have hfirst := h pair (.head _)
    exact hfirst.append (ih (forall_mem_cons.mp h).2)

lemma Sweeps.rebuilt {uses : List Use} {after : Node}
    (h : Sweeps tbl uses pre after) : Rebuilt low low [pre] [after] := by
  induction h with
  | form pairs children ih =>
    refine .node rfl rfl rfl ?_
    rw [Form.children_map, Form.children_map]
    exact .pairs ih
  | @collapse lbl tgt val swept isDead inside ih =>
    have hval : Numbered low low [tgt, val] [tgt, swept] := ih.toNumbered.frame [tgt] []
    refine .adopted rfl rfl (hval.sublist (sublist_cons_self tgt [swept])).inside fun _ hs => ?_
    have hswept := ih.spanned (fun _ hm => mem_singleton.mp hm ▸ hs.child (.tail _ (.head _)))
    exact (hswept swept (.head _)).relabel rfl
  | statements inside ih => exact ih.trans (.adopts_some rfl rfl rfl filter_sublist)
  | @step lbl node kind init? cond? step body inside isPure ih =>
    refine ih.trans (.adopts_some rfl rfl rfl ?_)
    simp only [Form.children, Option.toList_none, append_nil]
    exact sublist_append_left ..

lemma SweptTo.rebuilt {after : Node} (h : SweptTo tbl pre after) : Rebuilt low low [pre] [after] := by
  induction h with
  | refl => exact .refl low _
  | tail _ hstep ih =>
    obtain ⟨uses, hsweep⟩ := hstep
    exact ih.trans hsweep.rebuilt

/-! ## Trees -/

namespace TreePass

variable {env : SimplifyEnv} {facts : Facts} {lbl : Label}

lemma checkEnd_acts {old : List Node} {span : Span} (fn : Symbol) (h : span ∈ old.map Node.span)
    (endsUnreachable : Bool) :
    Acts plain old facts (fn.checkEnd span endsUnreachable) (fun _ => old) fun _ after => after = facts := by
  unfold Symbol.checkEnd
  split
  · exact .fail h _
  · exact .same rfl rfl

lemma visitFunction_acts {sym : SymbolId} {params : List SymbolId} {body : Pending} {node : Node}
    (hb : body.StandsFor False env node) :
    Acts False [.mk lbl (.function sym params body.node)] facts (visitFunction env lbl sym params body)
    (fun res => [res]) fun _ _ => True := by
  have hopen : Acts False [.mk lbl (.function sym params body.node)] facts Simplify.openFunction (fun _ =>
    [.mk lbl (.function sym params body.node)])
      fun _ after => after = ⟨[], [], false⟩ := .change (fun _ _ => rfl) (fun _ => rfl) False.elim
  refine .read fun before _ => .seq hopen ?_
  refine .bind (.inside (fun body => .function sym params body) [] [] (hb.run False.elim) rfl fun _ => rfl)
    fun seen _ _ => .isUnreachable ?_
  refine .seq (.setUnreachable _) (.seq (checkEnd_acts _ (.head _) _) ?_)
  refine .seq (.change (fun _ hs => hs) (fun _ => rfl) False.elim)
    (.pure (fun low => .node rfl rfl rfl ?_) trivial)
  split
  · exact (sweptTo_eliminateDeadStores env.symbols seen).rebuilt
  · exact .refl low _

/-- A child as it is handed to the visitor of the node it belongs to. -/
def pendingChild (env : SimplifyEnv) (own slot : Label) (child : Node) : Pending × PendingArm :=
  let node := if own.id = slot.id then child else child.withParent (some slot.id)
  let visitor := child.fold (visitorForm env)
  (⟨node, visitor.visit⟩, ⟨node, visitor.parts?⟩)

lemma pendingChildren_map (own slot : Label) (form : Form Node) :
    pendingChildren own slot (form.map fun kid => (kid, kid.fold (visitorForm env))) =
      form.map (pendingChild env own slot) := by
  rw [pendingChildren, Form.map_map]
  rfl

lemma visit_mk (own : Label) (form : Form Node) : ((Node.mk own form).fold (visitorForm env)).visit =
      visitForm env own (form.map fun kid => (kid, kid.fold (visitorForm env))) := by
  rw [Node.fold_mk]
  rfl

/-- A visit of a node rebuilds it, and is one of the relation if the tree is
plain. -/
def Stands (plain : Prop) (env : SimplifyEnv) (node : Node) : Prop :=
  Pending.StandsFor plain env ⟨node, (node.fold (visitorForm env)).visit⟩ node

/-- What visits of typed trees come to. -/
def TypedStands (env : SimplifyEnv) (node : Node) :
    Prop := Stands (node.Typed env.symbols ∧ node.form.isArm = false) env node

lemma pendingChild_standsFor (h : Stands plain env kid) (own slot : Label) :
    (pendingChild env own slot kid).1.StandsFor plain env kid := by
  dsimp only [pendingChild]
  split
  · exact h
  · exact ⟨h.linked.withParent _, rfl, rfl, h.visits⟩

lemma pendingChildren_standFor {children : List Node} (h : ∀ kid ∈ children, Stands plain env kid)
    (own slot : Label) :
    List.Forall₂ (Pending.StandsFor plain env) ((children.map (pendingChild env own slot)).map Prod.fst)
    children := by
  rw [map_map, forall₂_map_left_iff]
  exact forall₂_same.mpr fun kid hc => pendingChild_standsFor (h kid hc) own slot

lemma pendingOption_standsFor {child? : Option Node} (h : ∀ kid ∈ child?, Stands plain env kid)
    (own slot : Label) :
    Option.Rel (Pending.StandsFor plain env) ((child?.map (pendingChild env own slot)).map Prod.fst) child? := by
  cases child? with
  | none => exact .none
  | some kid => exact .some (pendingChild_standsFor (h kid rfl) own slot)

/-- The children of a branch are visited by their parts. -/
lemma pendingArm_standsFor {arm : Node} (harm : plain → arm.form.isArm = true)
    (h : ∀ kid ∈ arm.form.children, Stands plain env kid) (own slot : Label) :
    (pendingChild env own slot arm).2.StandsFor plain env arm := by
  obtain ⟨armLabel, form⟩ := arm
  refine ⟨by dsimp only [pendingChild]; split <;> rfl, fun hp => ?_, fun conditionVisit? bodyVisit hparts => ?_⟩
  · obtain ⟨cond?, body, hform⟩ := Form.eq_arm_of_isArm (harm hp)
    obtain rfl : form = .arm cond? body := hform
    dsimp only [pendingChild]
    rw [Node.fold_mk]
    rfl
  · dsimp only [pendingChild] at hparts ⊢
    rw [Node.fold_mk] at hparts
    cases form with
    | arm cond? body =>
      obtain ⟨rfl, rfl⟩ := Prod.mk.inj (Option.some.inj hparts)
      refine ⟨?_, cond?, body, rfl, ?_, h body (mem_append_right _ (mem_singleton_self body))⟩
      · split <;> cases cond? <;> rfl
      · cases cond? with
        | none => exact .none
        | some cond => exact .some (h cond (.head _))
    | _ => cases hparts

/-- The children of a node that is visited under a label belong to it. -/
lemma adopt_eq_pending {form : Form Node} (hl : (Node.mk own form).Linked) (slot : Label) :
    Node.adopt slot.id form = (form.map (pendingChild env own slot)).map (·.1.node) := by
  rw [Node.adopt, Form.map_map]
  refine Form.map_congr fun kid hc => ?_
  dsimp only [pendingChild]
  split
  · rename_i hid
    obtain ⟨⟨childId, parent?, type, span⟩, inner⟩ := kid
    obtain rfl : parent? = some own.id := (Node.linked_mk.mp hl).1 _ hc
    rw [← hid]
    rfl
  · rfl

/-- Visiting a linked node is as it should be, given that visiting the children
and theirs is. -/
lemma stands_mk {form : Form Node} (hl : (Node.mk own form).Linked)
    (ih : ∀ kid ∈ form.children, TypedStands env kid ∧ ∀ inner ∈ kid.form.children, TypedStands env inner) :
    TypedStands env (.mk own form) := by
  refine ⟨hl, rfl, rfl, fun {fewer outer slot} htyped hf hslot => ?_⟩
  have hrule (hp : fewer) := (Node.typed_mk.mp (htyped hp).1).1.2
  have hkid (hparts : Node.parts form = form.children) (kid : Node) (hc : kid ∈ form.children) :
      Stands fewer env kid :=
    (ih kid hc).1.mono fun hp => (htyped hp).1.of_mem_parts (hparts ▸ hc)
  have hnodes (children : List Node) : (children.map (pendingChild env own slot)).map (·.1.node) =
      ((children.map (pendingChild env own slot)).map Prod.fst).map Pending.node := List.map_map.symm
  have hnode? (child? : Option Node) : (child?.map (pendingChild env own slot)).map (·.1.node) =
      ((child?.map (pendingChild env own slot)).map Prod.fst).map Pending.node := (Option.map_map ..).symm
  have hchild {kid : Node} (h : Stands fewer env kid) := pendingChild_standsFor h own slot
  dsimp only [Node.form_mk]
  rw [visit_mk, visitForm, pendingChildren_map, adopt_eq_pending hl slot]
  cases form with
  | program functions =>
    have hrow : (functions.map (pendingChild env own slot)).mapM (fun kid => kid.1.run outer.nested) =
        ((functions.map (pendingChild env own slot)).map Prod.fst).mapM fun kid => kid.run outer.nested := by
      rw [mapM_map (f := Prod.fst)]
      rfl
    dsimp only [Form.map]
    rw [hnodes, hrow]
    exact fun facts => .bind (.inside (fun seen => .program seen) [] [] (Pending.run_mapM_acts hf
      (pendingChildren_standFor (hkid rfl) own slot)) (append_nil _).symm fun _ => (append_nil _).symm)
        fun _ _ _ => .same rfl fun hp => (hrule hp).elim
  | function sym params body =>
    exact fun facts => (visitFunction_acts ((hchild (hkid rfl body (.head _))).mono False.elim)).mono
      (fun hp => (hrule hp).elim) fun _ _ _ hp => (hrule hp).elim
  | block stmts =>
    dsimp only [Form.map]
    rw [hnodes]
    exact visitBlock_performs hslot hf (pendingChildren_standFor (hkid rfl) own slot)
  | branch arms =>
    have harms : (arms.map (pendingChild env own slot)).map (·.1.node) =
        ((arms.map (pendingChild env own slot)).map Prod.snd).map PendingArm.node := by
      simp only [List.map_map]
      rfl
    dsimp only [Form.map]
    rw [harms]
    refine visitBranch_performs hslot hf ?_ fun hp => (hrule hp).2
    rw [map_map, forall₂_map_left_iff]
    refine forall₂_same.mpr fun arm ha => pendingArm_standsFor (fun hp => (hrule hp).1 arm ha)
      (fun kid hc => ?_) own slot
    exact ((ih arm ha).2 kid hc).mono fun hp => (htyped hp).1.of_mem_parts (mem_flatMap.mpr ⟨arm, ha, hc⟩)
  | arm cond? body =>
    have hrow : (cond?.map (pendingChild env own slot)).mapM (fun kid => kid.1.run outer.nested) =
        ((cond?.map (pendingChild env own slot)).map Prod.fst).mapM fun kid => kid.run outer.nested := by
      cases cond? <;> rfl
    have hcond := pendingOption_standsFor (fun cond (hc : cond ∈ cond?) =>
      hkid rfl cond (by simp_all [Form.children])) own slot
    have hbody := hchild (hkid rfl body (by simp [Form.children]))
    dsimp only [Form.map]
    rw [hnode?, hrow]
    refine fun facts => .bind (.inside (fun visited? => .arm visited? _) [] [_] (run_mapM_option_acts hf hcond)
      rfl fun _ => rfl)
      fun visited? _ _ => .bind (.inside (fun seen => .arm visited? seen) visited?.toList [] (hbody.run hf)
        (append_nil _).symm
        fun _ => (append_nil _).symm) fun _ _ _ => .same rfl fun hp => by cases (htyped hp).2
  | loop kind init? cond? step? body =>
    dsimp only [Form.map]
    rw [hnode?, hnode?, hnode?]
    refine visitLoop_performs hslot hf (pendingOption_standsFor (fun init hi => hkid rfl init ?_) own slot)
      (pendingOption_standsFor (fun cond hc => hkid rfl cond ?_) own slot)
      (pendingOption_standsFor (fun step hs => hkid rfl step ?_) own slot)
      (hchild (hkid rfl body ?_)) <;> simp_all [Form.children]
  | breakLoop =>
    refine fun facts => (Acts.jump (.head _)).bind ?_
    rintro _ _ ⟨exits, rest, hloops, rfl⟩
    exact .same rfl fun _ => .relabel (.breakLoop hloops) (.relabel hslot.symm _)
  | continueLoop =>
    refine fun facts => (Acts.jump (.head _)).bind ?_
    rintro _ _ ⟨exits, rest, hloops, rfl⟩
    exact .same rfl fun _ => .relabel (.continueLoop hloops) (.relabel hslot.symm _)
  | returnValue value? =>
    dsimp only [Form.map]
    rw [hnode?]
    exact visitReturn_performs hslot hf (pendingOption_standsFor (fun kid hc =>
      hkid rfl kid (Option.mem_toList.mpr hc)) own slot)
  | declare sym ini? =>
    dsimp only [Form.map]
    rw [hnode?]
    exact visitDeclare_performs hslot hf (pendingOption_standsFor (fun kid hc =>
      hkid rfl kid (Option.mem_toList.mpr hc)) own slot)
  | swizzle obj field =>
    exact fun facts => .bind (.inside (fun obj => .swizzle obj field) [] []
      ((hchild (hkid rfl obj (.head _))).run hf) rfl fun _ => rfl)
      fun _ _ h => .same rfl fun hp => .relabel (.swizzle (h hp)) (.relabel hslot.symm _)
  | var sym => exact visitVar_performs hslot sym
  | immediate val => exact fun facts => .same rfl fun _ => .relabel .immediate (.relabel hslot.symm _)
  | unary op opd =>
    exact visitUnary_performs hslot hf (hchild (hkid rfl opd (.head _))) fun hp hs => ((hrule hp).2.1 hs).isSome
  | binary op lhs rhs =>
    exact visitBinary_performs hslot hf (hchild (hkid rfl lhs (.head _)))
      (hchild (hkid rfl rhs (.tail _ (.head _)))) fun hp hop => ((hrule hp).2.2.1 hop).isSome
  | call callee args =>
    dsimp only [Form.map]
    rw [hnodes]
    exact visitCall_performs hslot hf (pendingChildren_standFor (hkid rfl) own slot)

lemma stands_of_linked {node : Node} (hl : node.Linked) : TypedStands env node := by
  have hboth : TypedStands env node ∧ ∀ inner ∈ node.form.children, TypedStands env inner := by
    induction node with
    | mk own form ih =>
      replace ih := fun kid hc => ih kid hc (hl.child hc)
      exact ⟨stands_mk hl ih, fun inner hi => (ih inner hi).1⟩
  exact hboth.1

end TreePass

/-! ## Functions -/

/-- The state in which the body of a function is visited. -/
def SimplifyState.opened (st : SimplifyState Nat) : SimplifyState Nat :=
  { st with constants := [], loops := [], unreachable := false }

/-- What becomes of a function. -/
inductive FunctionSimplifies (env : SimplifyEnv) : Node → Node → Prop
  | mk {label : Label} {sym : SymbolId} {params : List SymbolId} {body visited : Node} {after : Facts}
      (visit : Visits env ⟨some sym, false, .functionBody⟩ ⟨[], [], false⟩ body after visited)
      (ends : (env.symbols.get sym).type.isVoid = true ∨ after.unreachable = true) :
      FunctionSimplifies env (.mk label (.function sym params body)) (.mk label (.function sym params
          (if env.options.eliminate then (eliminateDeadStores env.symbols visited).node else visited)))

/-- The pass over functions one after the other. -/
inductive FunctionsPass (env : SimplifyEnv) : SimplifyState Nat → List Node → List Node →
    SimplifyState Nat → Prop
  | nil {s : SimplifyState Nat} : FunctionsPass env s [] [] s
  | cons {s finish t last : SimplifyState Nat} {label : Label} {sym : SymbolId} {params : List SymbolId}
      {body visited : Node} {functions results : List Node}
      (run : (TreePass.visit env body ⟨some sym, false, .functionBody⟩).run.run s.opened = (.ok visited, finish))
      (ends : (env.symbols.get sym).type.isVoid = true ∨ finish.unreachable = true)
      (nodes : t.nodes = finish.nodes)
      (summaries : ∃ changes, t.summaries = finish.summaries ++ [⟨sym, finish.unreachable, changes⟩])
      (rest : FunctionsPass env t functions results last) :
      FunctionsPass env s (.mk label (.function sym params body) :: functions)
        (.mk label (.function sym params
          (if env.options.eliminate then (eliminateDeadStores env.symbols visited).node else visited)) ::
          results) last

namespace TreePass

variable {env : SimplifyEnv}

/-- The end of a function with a value must not be reached. -/
lemma checkEnd_ok {fn : Symbol} {span : Span} {endsUnreachable : Bool} {t : SimplifyState Nat} {done : Unit}
    (h : (fn.checkEnd span endsUnreachable : TreePass Unit).run.run s = (.ok done, t)) :
    t = s ∧ (fn.type.isVoid = true ∨ endsUnreachable = true) := by
  rw [Symbol.checkEnd] at h
  split at h
  · cases h
  · rename_i hends
    refine ⟨(ExceptT.run_pure_ok h).2, ?_⟩
    cases hvoid : fn.type.isVoid <;> simp_all

lemma visitFunctions_pass {slot : Label}
    (hid : own.id = slot.id) (hf : ∀ fn ∈ functions, ∃ sym params body, fn.form = .function sym params body)
    (h : ((functions.map (pendingChild env own slot)).mapM (fun kid => kid.1.run outer) : TreePass
      (List Node)).run.run s = (.ok results, last)) : FunctionsPass env s functions results last := by
  induction functions generalizing s results with
  | nil =>
    obtain ⟨rfl, rfl⟩ := ExceptT.run_pure_ok h
    exact .nil
  | cons fn rest ih =>
    rw [map_cons, mapM_cons] at h
    obtain ⟨first, t, hfirst, h⟩ := ExceptT.run_bind_ok h
    obtain ⟨others, last', hrest, h⟩ := ExceptT.run_bind_ok h
    obtain ⟨rfl, rfl⟩ := ExceptT.run_pure_ok h
    replace hrest := ih (forall_mem_cons.mp hf).2 hrest
    obtain ⟨sym, params, body, hform⟩ := hf fn (.head _)
    obtain ⟨lbl, form⟩ := fn
    obtain rfl : form = .function sym params body := hform
    dsimp only [pendingChild, Pending.run] at hfirst
    rw [if_pos hid, visit_mk, visitForm, pendingChildren_map] at hfirst
    obtain ⟨seen, finish, hbody, hfirst⟩ :=
      ExceptT.run_bind_ok (s := s.opened) (x := (pendingChild env lbl lbl body).1.run ⟨some sym, false,
        .functionBody⟩) hfirst
    obtain ⟨_, checked, hcheck, hfirst⟩ := ExceptT.run_bind_ok (s := { finish with unreachable := s.unreachable })
      (x := (env.symbols.get sym).checkEnd lbl.span finish.unreachable) hfirst
    obtain ⟨rfl, hends⟩ := checkEnd_ok hcheck
    cases hfirst
    have hswept : (if env.options.eliminate then eliminateDeadStores env.symbols seen else .unchanged seen).node =
        if env.options.eliminate then (eliminateDeadStores env.symbols seen).node else seen := by
      split <;> rfl
    rw [hswept]
    dsimp only [pendingChild, Pending.run] at hbody
    rw [if_pos rfl] at hbody
    refine .cons hbody hends ?_ ?_ hrest
    · rfl
    · exact ⟨_, rfl⟩

/-- A function whose body is typed. -/
def TypedFunction (table : SymbolTable) (fn : Node) : Prop :=
  ∃ sym params body, fn.form = .function sym params body ∧ body.form.isBlock = true ∧ body.Linked ∧
    body.Typed table

/-- The visit of the body of a function rebuilds it and is one of the relation. -/
lemma visit_body {body seen : Node} {finish : SimplifyState Nat} (hf : outer.function?.isSome = true)
    (hblk : body.form.isBlock = true) (hl : body.Linked) (ht : body.Typed env.symbols)
    (h : (visit env body outer).run.run s.opened = (.ok seen, finish)) :
    Rebuilt s.nodes finish.nodes [body] [seen] ∧
      Visits env outer ⟨[], [], false⟩ body finish.facts seen ∧ finish.summaries = s.summaries := by
  have harm : body.form.isArm = false := by
    revert hblk
    cases body.form <;> simp [Form.isBlock, Form.isArm]
  have hends : Acts _ [body] ⟨[], [], false⟩ (visit env body outer) _ _ := (stands_of_linked hl).run fun _ => hf
  replace hends := @hends s.opened rfl
  rw [h] at hends
  exact ⟨hends.1, hends.2.1 ⟨ht, harm⟩, hends.2.2 ⟨ht, harm⟩⟩

end TreePass

lemma FunctionsPass.simplifies {env : SimplifyEnv} (h : FunctionsPass env s functions results last)
    (hf : ∀ fn ∈ functions, TreePass.TypedFunction env.symbols fn) :
    List.Forall₂ (FunctionSimplifies env) functions results := by
  induction h with
  | nil => exact .nil
  | cons run ends _ _ _ ih =>
    obtain ⟨sym, params, body, hform, hblk, hlinked, htyped⟩ := hf _ (.head _)
    cases hform
    exact .cons (.mk (TreePass.visit_body rfl hblk hlinked htyped run).2.1 ends) (ih (forall_mem_cons.mp hf).2)

/-- The pass over a program is the one over its functions. -/
lemma Program.simplify_passes
    (hf : ∀ fn ∈ prog.functions, ∃ sym params body, fn.form = .function sym params body)
    (hp : ∃ functions, prog.root.form = .program functions) (h : prog.simplify options = .ok out) :
    out.program.symbols = prog.symbols ∧
    (∃ functions, out.program.root = .mk prog.root.label (.program functions)) ∧
      ∃ last, FunctionsPass ⟨options, prog.symbols⟩ (.start prog.nodeCount) prog.functions
      out.program.functions last ∧ out.summaries = last.summaries := by
  obtain ⟨functions, hroot⟩ := hp
  obtain ⟨⟨lbl, form⟩, tbl, nodeCount⟩ := prog
  obtain rfl : form = .program functions := hroot
  rw [Program.simplify] at h
  generalize hrun : (TreePass.visit _ _ _).run.run _ = outcome at h
  obtain ⟨outcome, last⟩ := outcome
  cases outcome with
  | error e => cases h
  | ok root =>
    cases h
    dsimp only [TreePass.visit] at hrun
    rw [TreePass.visit_mk, TreePass.visitForm, TreePass.pendingChildren_map] at hrun
    obtain ⟨results, mid, hresults, hrun⟩ := ExceptT.run_bind_ok hrun
    obtain ⟨rfl, rfl⟩ := ExceptT.run_pure_ok hrun
    exact ⟨rfl, ⟨results, rfl⟩, _, TreePass.visitFunctions_pass rfl hf hresults, rfl⟩

/-- What becomes of a program that was read. -/
lemma Program.simplify_ok (hf : ∀ fn ∈ prog.functions, TreePass.TypedFunction prog.symbols fn)
    (hp : ∃ functions, prog.root.form = .program functions)
    (h : prog.simplify options = .ok out) :
    out.program.symbols = prog.symbols ∧ (∃ functions, out.program.root.form = .program functions) ∧
      List.Forall₂ (FunctionSimplifies ⟨options, prog.symbols⟩) prog.functions out.program.functions := by
  obtain ⟨hsyms, ⟨functions, hroot⟩, last, hpass, -⟩ :=
    simplify_passes (fun fn hm => (hf fn hm).imp fun _ hparams =>
    hparams.imp fun _ hbody => hbody.imp fun _ h => h.1) hp h
  exact ⟨hsyms, ⟨functions, congrArg Node.form hroot⟩, hpass.simplifies hf⟩

/-! ## Numbers, links and spans -/

namespace Program.Numbered

/-- What a simplified program is made of. -/
lemma simplify_ends (hp : prog.Numbered) (options : Options) : match prog.simplify options with
    | .ok out => Rebuilt prog.nodeCount out.program.nodeCount [prog.root] [out.program.root]
    | .error error => ∀ ⦃may : Span → Prop⦄, prog.root.Spanned may → may error.span := by
  have hacts : TreePass.Acts False [prog.root] ⟨[], [], false⟩ (TreePass.visit ⟨options, prog.symbols⟩ prog.root
    ⟨none, false, .nested⟩) _ _ := ((TreePass.stands_of_linked hp.linked).mono False.elim).run False.elim
  have hends := @hacts (.start prog.nodeCount) rfl
  rw [Program.simplify]
  generalize (TreePass.visit _ _ _).run.run _ = res at hends
  obtain ⟨outcome, last⟩ := res
  cases outcome with
  | error error => exact fun _ h => hends fun node hm => mem_singleton.mp hm ▸ h
  | ok root => exact hends.1

/-- Simplifying keeps every node reached once, below the node it belongs
to. -/
lemma simplify {out : Simplified} (hp : prog.Numbered) (h : prog.simplify options = .ok out) :
    out.program.Numbered := by
  have hrebuilt := hp.simplify_ends options
  rw [h] at hrebuilt
  obtain ⟨original, ho, hparent⟩ := hrebuilt.parent _ (.head _)
  obtain rfl := mem_singleton.mp ho
  have hgrows := hrebuilt.grows
  simp only [Node.idsAll_cons, Node.idsAll_nil, append_nil] at hgrows
  exact ⟨hparent.trans hp.isRoot,
    hrebuilt.linked (fun node hm => mem_singleton.mp hm ▸ hp.linked) _ (.head _),
    hgrows.nodup hp.nodup hp.bound, hgrows.lt_high hp.bound⟩

/-- Spans of a simplified program, and of the error if there is one. -/
lemma spanned_simplify {may : Span → Prop} (hp : prog.Numbered) (h : prog.root.Spanned may) (options : Options) :
    match prog.simplify options with
    | .ok out => out.program.root.Spanned may
    | .error error => may error.span := by
  have hends := hp.simplify_ends options
  cases hsimp : prog.simplify options with
  | error error =>
    rw [hsimp] at hends
    exact hends h
  | ok out =>
    rw [hsimp] at hends
    exact hends.spanned (fun node hm => mem_singleton.mp hm ▸ h) _ (.head _)

end Program.Numbered

end Shading
