import Mathlib.Logic.Relation
import Shading.Proofs.Simplify.Typing
import Shading.Proofs.Tree.Flow
import Shading.Simplify.DeadStore

/-!
# What a sweep can do

`Sweeps` relates a tree to what removing dead stores can make of it in one
go; each constructor is one thing that happens to a node.  A tree stays typed
and checked, keeps its jumps and reads no more members, and where control did
not get past before it does not afterwards (`Sweeps.kept`).
-/

namespace Shading

open Node Form
open List hiding map map_id map_map

variable {node third : Node} {lbl : Label} {pairs : Form (Node × Node)} {table : SymbolTable} {uses : List Use}
  {keep : Node → Bool}

/-- What one go over a tree can make of it, given the uses that were counted. -/
inductive Sweeps (table : SymbolTable) (uses : List Use) : Node → Node → Prop
  | form {label : Label} (pairs : Form (Node × Node))
      (children : ∀ pair ∈ pairs.children, Sweeps table uses pair.1 pair.2) :
      Sweeps table uses (.mk label (pairs.map Prod.fst)) (.mk label (pairs.map Prod.snd))
  | collapse {label : Label} {target value swept : Node} (isDead : isDeadTarget table uses target = true)
      (inside : Sweeps table uses value swept) :
      Sweeps table uses (.mk label (.binary .assign target value))
        (.mk { label with type := swept.type, span := swept.span } (adopt label.id swept.form))
  | statements {label : Label} {node : Node} {nodes : List Node}
      (inside : Sweeps table uses node (.mk label (.block nodes))) : Sweeps table uses node
        (.mk label (adopt label.id (.block (nodes.filter fun node => !isDeadStatement table uses node))))
  | step {label : Label} {node : Node} {kind : LoopKind} {init? cond? : Option Node} {step body : Node}
      (inside : Sweeps table uses node (.mk label (.loop kind init? cond? (some step) body)))
      (isPure : step.isPure table = true) :
      Sweeps table uses node (.mk label (adopt label.id (.loop kind init? cond? none body)))

/-! ## The sweep -/

namespace Sweeps

/-- Children that are swept one by one. -/
lemma map (form : Form Node) {f : Node → Node} (h : ∀ kid ∈ form.children, Sweeps table uses kid (f kid)) :
    Sweeps table uses (.mk lbl form) (.mk lbl (form.map f)) := by
  let pairs : Form (Node × Node) := form.map fun kid => (kid, f kid)
  have hpairs : Sweeps table uses (.mk lbl (pairs.map Prod.fst)) (.mk lbl (pairs.map Prod.snd)) := by
    refine .form pairs fun pair hp => ?_
    obtain ⟨kid, hc, rfl⟩ := mem_children_map.mp hp
    exact h kid hc
  rw [map_map, map_map, map_id] at hpairs
  exact hpairs

end Sweeps

section

variable (table : SymbolTable) (uses : List Use)

def collapse (node : Node) : Collapse := node.fold (collapseForm table uses)

lemma collapse_mk (lbl : Label) (form : Form Node) : collapse table uses (.mk lbl form) =
    collapseForm table uses lbl (form.map fun kid => (kid, collapse table uses kid)) := by
  rw [collapse, fold_mk]
  rfl

/-- Whether the node itself is changed or not, it is swept. -/
lemma sweeps_collapse (node : Node) : Sweeps table uses node (collapse table uses node).inside.node ∧
    Sweeps table uses node (collapse table uses node).whole.node := by
  induction node with
  | mk lbl form ih =>
    have hin : Sweeps table uses (.mk lbl form)
        (Sweep.ofForm lbl ((form.map fun kid => (kid, collapse table uses kid)).map (·.2.whole))).node := by
      rw [map_map]
      dsimp only [Sweep.ofForm]
      rw [map_map]
      exact .map form fun kid hc => (ih kid hc).2
    rw [collapse_mk]
    cases form with
    | binary op lhs rhs =>
      have hrhs := (ih rhs (.tail _ (.head _))).1
      cases op with
      | assign =>
        simp only [map, collapseForm]
        split
        · exact ⟨hin, .collapse (by assumption) hrhs⟩
        · exact ⟨hin, hin⟩
      | _ => exact ⟨hin, hin⟩
    | _ => exact ⟨hin, hin⟩

lemma sweeps_collapseAssignments (node : Node) :
    Sweeps table uses node (collapseAssignments table uses node).node :=
  (sweeps_collapse table uses node).2

lemma pruneStatements_mk (lbl : Label) (form : Form Node) : pruneStatements table uses (.mk lbl form) =
    pruneForm table uses lbl (form.map fun kid => (kid, pruneStatements table uses kid)) := by
  rw [pruneStatements, fold_mk]
  rfl

/-- Dropping statements changes no expression, and blocks and loops are no
expressions. -/
lemma isPure_pruneStatements (node : Node) : (pruneStatements table uses node).node.isPure table =
    node.isPure table := by
  induction node with
  | mk lbl form ih =>
    have hin : (Sweep.ofForm lbl
        ((form.map fun kid => (kid, pruneStatements table uses kid)).map Prod.snd)).node.isPure table =
          (mk lbl form).isPure table := by
      rw [map_map]
      dsimp only [Sweep.ofForm]
      rw [map_map, isPure_mk, isPure_mk, isPureOperation_map, children_map, all_map]
      congr 1
      rw [Bool.eq_iff_iff, all_eq_true, all_eq_true]
      exact forall₂_congr fun kid hc => by rw [Function.comp_apply, ih kid hc]
    rw [pruneStatements_mk]
    cases form with
    | block nodes =>
      simp only [map, pruneForm]
      split
      · exact hin
      · rw [withForm, isPure_mk, isPure_mk]
        rfl
    | loop kind init? cond? step? body =>
      cases step? with
      | none => exact hin
      | some step =>
        simp only [map, Option.map_some, pruneForm]
        split
        · rw [withForm, isPure_mk, isPure_mk]
          rfl
        · exact hin
    | _ => exact hin

/-- What is dropped does not depend on what was dropped inside. -/
lemma isDeadStatement_pruneStatements (node : Node) :
    isDeadStatement table uses (pruneStatements table uses node).node = isDeadStatement table uses node := by
  have hpure := isPure_pruneStatements table uses node
  obtain ⟨lbl, form⟩ := node
  rw [pruneStatements_mk] at hpure ⊢
  cases form with
  | block nodes =>
    simp only [map, pruneForm]
    split <;> rfl
  | loop kind init? cond? step? body =>
    cases step? with
    | none => rfl
    | some step =>
      simp only [map, Option.map_some, pruneForm]
      split <;> rfl
  | declare sym ini? =>
    cases ini? with
    | none => rfl
    | some initializer =>
      change (_ && (pruneStatements table uses initializer).node.isPure table) = (_ && initializer.isPure table)
      rw [isPure_pruneStatements]
  | _ => first | rfl | exact hpure

lemma sweeps_pruneStatements (node : Node) : Sweeps table uses node (pruneStatements table uses node).node := by
  induction node with
  | mk lbl form ih =>
    have hin : Sweeps table uses (.mk lbl form)
        (.mk lbl (form.map fun kid => (pruneStatements table uses kid).node)) := .map form ih
    have hform : (Sweep.ofForm lbl ((form.map fun kid => (kid, pruneStatements table uses kid)).map
        Prod.snd)).node = .mk lbl (form.map fun kid => (pruneStatements table uses kid).node) := by
      rw [map_map]
      dsimp only [Sweep.ofForm]
      rw [map_map]
    rw [pruneStatements_mk]
    cases form with
    | block nodes =>
      simp only [map, pruneForm] at hform hin ⊢
      split
      · exact hform ▸ hin
      · have hkept : (nodes.map fun node => (pruneStatements table uses node).node).filter
            (fun node => !isDeadStatement table uses node) =
              (nodes.filter fun node => !isDeadStatement table uses node).map
                fun node => (pruneStatements table uses node).node := by
          rw [filter_map]
          simp only [Function.comp_def, isDeadStatement_pruneStatements]
        have hdropped := hin.statements
        rw [hkept] at hdropped
        rw [hform, filter_map, List.map_map]
        exact hdropped
    | loop kind init? cond? step? body =>
      cases step? with
      | none => exact hform ▸ hin
      | some step =>
        simp only [map, Option.map_some, pruneForm] at hform hin ⊢
        split
        · rename_i hpure
          have hdropped := hin.step (by rw [isPure_pruneStatements]; exact hpure)
          rw [hform, Option.map_map, Option.map_map]
          exact hdropped
        · exact hform ▸ hin
    | _ => exact hform ▸ hin

/-- What removing dead stores can make of a tree: one go after another. -/
def SweptTo (table : SymbolTable) : Node → Node → Prop :=
  Relation.ReflTransGen fun node swept => ∃ uses, Sweeps table uses node swept

lemma sweptTo_sweepUpTo (bound : Nat) (node : Node) : SweptTo table node (sweepUpTo table bound node).node := by
  induction bound generalizing node with
  | zero => exact .refl
  | succ bound ih =>
    rw [sweepUpTo]
    dsimp only
    split
    · exact .refl
    · refine .head ⟨_, sweeps_collapseAssignments table (node.uses .read) node⟩ ?_
      exact .head ⟨_, sweeps_pruneStatements table (node.uses .read) _⟩ (ih _)

lemma sweptTo_eliminateDeadStores (node : Node) : SweptTo table node (eliminateDeadStores table node).node :=
  sweptTo_sweepUpTo table node.size node

end

/-! ## Types -/

/-- A node that can stand where another one did. -/
structure Node.StandsIn (node other : Node) : Prop where
  type_eq : other.type = node.type
  isExpression_eq : other.form.isExpression = node.form.isExpression
  isDeclare_eq : other.form.isDeclare = node.form.isDeclare
  isStatement_eq : other.form.isStatement = node.form.isStatement
  isArm_eq : other.form.isArm = node.form.isArm
  isElse_eq : other.form.isElse = node.form.isElse
  isBlock_eq : other.form.isBlock = node.form.isBlock
  isInit : node.IsInit → other.IsInit
  var? : node.form.var?.isSome = true → other.form.var? = node.form.var?

namespace Node.StandsIn

variable {res type : ValueType} {other : Node}

lemma refl (node : Node) : node.StandsIn node := ⟨rfl, rfl, rfl, rfl, rfl, rfl, rfl, fun h => h, fun _ => rfl⟩

lemma trans (h : node.StandsIn other) (h' : other.StandsIn third) : node.StandsIn third where
  type_eq := h'.type_eq.trans h.type_eq
  isExpression_eq := h'.isExpression_eq.trans h.isExpression_eq
  isDeclare_eq := h'.isDeclare_eq.trans h.isDeclare_eq
  isStatement_eq := h'.isStatement_eq.trans h.isStatement_eq
  isArm_eq := h'.isArm_eq.trans h.isArm_eq
  isElse_eq := h'.isElse_eq.trans h.isElse_eq
  isBlock_eq := h'.isBlock_eq.trans h.isBlock_eq
  isInit := fun hi => h'.isInit (h.isInit hi)
  var? := fun hv => (h'.var? ((congrArg Option.isSome (h.var? hv)).trans hv)).trans (h.var? hv)

lemma isCondition (h : node.StandsIn other) (hc : node.IsCondition) : other.IsCondition :=
  ⟨h.isExpression_eq.trans hc.1, h.type_eq.trans hc.2⟩

lemma map_type {pairs : List (Node × Node)} (h : ∀ pair ∈ pairs, pair.1.StandsIn pair.2) :
    (pairs.map Prod.snd).map Node.type = (pairs.map Prod.fst).map Node.type := by
  rw [List.map_map, List.map_map]
  exact map_congr_left fun pair hp => (h pair hp).type_eq

lemma forall_option {pair? : Option (Node × Node)} {p q : Node → Prop}
    (hpair : ∀ pair ∈ pair?.toList, pair.1.StandsIn pair.2) (hpq : ∀ {a b : Node}, a.StandsIn b → p a → q b)
    (hp : ∀ node ∈ pair?.map Prod.fst, p node) : ∀ node ∈ pair?.map Prod.snd, q node := by
  cases pair? with
  | none => simp
  | some pair => simpa using hpq (hpair pair (mem_singleton_self pair)) (hp pair.1 rfl)

lemma forall_list {pairs : List (Node × Node)} {p q : Node → Prop}
    (hpair : ∀ pair ∈ pairs, pair.1.StandsIn pair.2)
    (hpq : ∀ {a b : Node}, a.StandsIn b → p a → q b) (hp : ∀ node ∈ pairs.map Prod.fst, p node) :
    ∀ node ∈ pairs.map Prod.snd, q node := by
  intro node hm
  obtain ⟨pair, hmem, rfl⟩ := mem_map.mp hm
  exact hpq (hpair pair hmem) (hp pair.1 (mem_map_of_mem hmem))

section

variable (h : ∀ pair ∈ pairs.children, pair.1.StandsIn pair.2)
include h

/-- A form asks the same of nodes that stand in for its children. -/
lemma formRule (hrule : FormRule table type (pairs.map Prod.fst)) : FormRule table type (pairs.map Prod.snd) := by
  cases pairs with
  | program functions | function sym params body => exact hrule
  | block stmts => exact forall_list h (fun hs => (hs.isStatement_eq.trans ·)) hrule
  | branch arms =>
    refine ⟨forall_list h (fun hs => (hs.isArm_eq.trans ·)) hrule.1, ?_⟩
    have hlast := hrule.2
    rw [← map_dropLast] at hlast ⊢
    exact forall_list (fun pair hm => h pair (dropLast_subset _ hm)) (fun hs => (hs.isElse_eq.trans ·)) hlast
  | arm cond? body =>
    have hbody := h body (by simp [Form.children])
    refine ⟨forall_option (fun pair hm => h pair (by simp_all [Form.children])) isCondition hrule.1, ?_⟩
    exact hbody.isBlock_eq.trans hrule.2
  | loop kind init? cond? step? body =>
    obtain ⟨hinit, hcond, hstep, hb⟩ := hrule
    refine ⟨forall_option (fun pair hm => h pair (by simp_all [Form.children])) isInit hinit,
      forall_option (fun pair hm => h pair (by simp_all [Form.children])) isCondition hcond,
      forall_option (fun pair hm => h pair (by simp_all [Form.children])) (fun hs =>
        (hs.isExpression_eq.trans ·)) hstep, ?_⟩
    exact (h body (by simp [Form.children])).isBlock_eq.trans hb
  | breakLoop | continueLoop => trivial
  | returnValue value? =>
    exact forall_option (fun pair hm => h pair (by simp_all [Form.children])) (fun hs =>
      (hs.isExpression_eq.trans ·)) hrule
  | declare sym ini? =>
    obtain ⟨hkind, hvoid, hvalid, hinitializer⟩ := hrule
    refine ⟨hkind, hvoid, hvalid, forall_option (fun pair hm => h pair (by simp_all [Form.children]))
      (fun hs hp => ?_) hinitializer⟩
    exact ⟨hs.isExpression_eq.trans hp.1, hs.type_eq.trans hp.2⟩
  | swizzle obj field =>
    have hobj := h obj (.head _)
    refine ⟨hobj.isExpression_eq.trans hrule.1, ?_⟩
    rw [hobj.type_eq]
    exact hrule.2
  | var sym | immediate val => exact hrule
  | unary op opd =>
    have hopd := h opd (.head _)
    obtain ⟨he, hstep, htakes⟩ := hrule
    refine ⟨hopd.isExpression_eq.trans he, fun hs => ?_, ?_⟩
    · rw [Form.IsTarget, hopd.var? (hstep hs).isSome]
      exact hstep hs
    · rw [hopd.type_eq]
      exact htakes
  | binary op lhs rhs =>
    have hlhs := h lhs (.head _)
    have hrhs := h rhs (.tail _ (.head _))
    obtain ⟨hl, hr, htgt, htypes, htakes⟩ := hrule
    refine ⟨hlhs.isExpression_eq.trans hl, hrhs.isExpression_eq.trans hr, fun hop => ?_, ?_, ?_⟩
    · rw [Form.IsTarget, hlhs.var? (htgt hop).isSome]
      exact htgt hop
    · rw [hlhs.type_eq, hrhs.type_eq]
      exact htypes
    · rw [hlhs.type_eq]
      exact htakes
  | call callee args =>
    have htypes : (args.map Prod.snd).map Node.type = (args.map Prod.fst).map Node.type := map_type h
    refine ⟨forall_list h (fun hs => (hs.isExpression_eq.trans ·)) hrule.1, ?_⟩
    rw [htypes]
    exact hrule.2

lemma checkRule (hrule : CheckRule table res (.mk lbl (pairs.map Prod.fst))) :
    CheckRule table res (.mk lbl (pairs.map Prod.snd)) := by
  cases pairs with
  | returnValue value? =>
    cases value? with
    | none => exact hrule
    | some pair =>
      have hval := h pair (by simp [Form.children])
      refine ⟨hrule.1, fun val hv => ?_⟩
      obtain rfl : pair.2 = val := Option.some.inj hv
      exact hval.type_eq.trans (hrule.2 pair.1 rfl)
  | call callee args =>
    have htypes : (args.map Prod.snd).map Node.type = (args.map Prod.fst).map Node.type := map_type h
    change parameterTypes _ ((args.map Prod.snd).map Node.type) = .ok ((args.map Prod.snd).map Node.type)
    rw [htypes]
    exact hrule
  | _ => trivial

/-- The same form with nodes that stand in for its children. -/
lemma form : (Node.mk lbl (pairs.map Prod.fst)).StandsIn (.mk lbl (pairs.map Prod.snd)) := by
  refine ⟨rfl, by simp, by simp, by simp, by simp, by simp, by simp, fun hinit => ?_, fun _ => by simp⟩
  cases pairs with
  | block stmts => exact forall_list h (fun hs => (hs.isDeclare_eq.trans ·)) hinit
  | _ => exact hinit

end

/-- Any two expressions of one type. -/
lemma of_isExpression (hn : node.form.isExpression = true) (ho : other.form.isExpression = true)
    (htype : other.type = node.type) (hvar : node.form.var?.isSome = false) : node.StandsIn other := by
  have hflags : ∀ form : Form Node, form.isExpression = true → form.isDeclare = false ∧ form.isElse = false ∧
      form.isBlock = false := by
    intro form h
    cases form <;> first | exact ⟨rfl, rfl, rfl⟩ | cases h
  obtain ⟨hd, he, hb⟩ := hflags _ hn
  obtain ⟨hd', he', hb'⟩ := hflags _ ho
  refine ⟨htype, ho.trans hn.symm, hd'.trans hd.symm, ?_, ?_, he'.trans he.symm, hb'.trans hb.symm,
    fun _ => IsInit.expression ho, fun h => absurd h (by rw [hvar]; exact Bool.false_ne_true)⟩
  · rw [isStatement_of_isExpression hn, isStatement_of_isExpression ho]
  · rw [isArm_of_isExpression hn, isArm_of_isExpression ho]

lemma of_alike (h : node.StandsIn other) (ha : other.Alike third) : node.StandsIn third := by
  have hform := ha.form_map_eq
  refine ⟨ha.type_eq.symm.trans h.type_eq, ?_, ?_, ?_, ?_, ?_, ?_, fun hi => ?_, fun hv => ?_⟩
  · rw [← isExpression_map erase, ← hform, isExpression_map, h.isExpression_eq]
  · rw [← isDeclare_map erase, ← hform, isDeclare_map, h.isDeclare_eq]
  · rw [← isStatement_map erase, ← hform, isStatement_map, h.isStatement_eq]
  · rw [← isArm_map erase, ← hform, isArm_map, h.isArm_eq]
  · rw [← isElse_map erase, ← hform, isElse_map, h.isElse_eq]
  · rw [← isBlock_map erase, ← hform, isBlock_map, h.isBlock_eq]
  · rw [← isInit_erase, ← ha, isInit_erase]
    exact h.isInit hi
  · rw [← var?_map erase, ← hform, var?_map, h.var? hv]

/-- Swept children are read as before, and targets are the same variables. -/
lemma readRule (hstands : ∀ pair ∈ pairs.children, pair.1.StandsIn pair.2)
    (ht : (Node.mk lbl (pairs.map Prod.fst)).Typed table)
    (h : ∀ pair ∈ pairs.children, pair.1.Readable table .read → pair.2.Readable table .read)
    (hrule : Node.ReadRule table .read (pairs.map Prod.fst)) : Node.ReadRule table .read (pairs.map Prod.snd) := by
  have htgt (pair : Node × Node) (usage : Usage) (hp : pair ∈ pairs.children) (hvar : pair.1.form.IsTarget table)
      (hr : pair.1.Readable table usage) : pair.2.Readable table usage := by
    obtain ⟨sym, hsym, -⟩ := hvar
    have hsame := (hstands pair hp).var? (by rw [hsym]; rfl)
    rw [readable_of_var (eq_var_of_var? hsym)] at hr
    exact (readable_of_var (eq_var_of_var? (hsame.trans hsym))).mpr hr
  have hkids (hreads : ∀ kid ∈ (pairs.map Prod.fst).children, kid.Readable table .read) :
      ∀ kid ∈ (pairs.map Prod.snd).children, kid.Readable table .read := by
    intro kid hc
    obtain ⟨pair, hp, rfl⟩ := mem_children_map.mp hc
    exact h pair hp (hreads _ (mem_children_map.mpr ⟨pair, hp, rfl⟩))
  cases pairs with
  | var sym => exact hrule
  | unary op operand =>
    have hopd : operand ∈ [operand] := mem_singleton_self _
    cases hs : op.isStep with
    | true => exact htgt operand _ hopd (ht.rule.2.1 hs) hrule
    | false =>
      rw [map, Node.ReadRule, hs] at hrule ⊢
      exact h operand hopd hrule
  | binary op lhs rhs =>
    cases op with
    | assign =>
      exact ⟨htgt lhs _ (.head _) (ht.rule.2.2.1 rfl) hrule.1, h rhs (.tail _ (.head _)) hrule.2⟩
    | _ => exact hkids hrule
  | _ => exact hkids hrule

end Node.StandsIn

/-! ## Flow -/

lemma Form.mem_children_of_withoutStep {kind : LoopKind} {init? cond? step? : Option Node} {body kid : Node}
    (h : kid ∈ (Form.loop kind init? cond? none body).children) :
    kid ∈ (Form.loop kind init? cond? step? body).children := by
  simp only [Form.children, mem_append] at h ⊢
  exact .inl (h.resolve_right (by simp))

namespace Node

variable {other : Node}

/-- What removing dead stores keeps of the way control takes.  A condition can
become literal, so that control no longer gets past. -/
structure KeepsFlow (node other : Node) : Prop where
  exits_eq : other.exits = node.exits
  ends : node.ends = true → other.ends = true
  literalCondition? : ∀ truth, node.literalCondition? = some truth → other.literalCondition? = some truth
  isDefault : node.isDefault = true → other.isDefault = true

lemma KeepsFlow.refl (node : Node) : node.KeepsFlow node := ⟨rfl, fun h => h, fun _ h => h, fun h => h⟩

lemma KeepsFlow.trans (h : node.KeepsFlow other) (h' : other.KeepsFlow third) : node.KeepsFlow third where
  exits_eq := h'.exits_eq.trans h.exits_eq
  ends := h'.ends ∘ h.ends
  literalCondition? := fun truth => h'.literalCondition? truth ∘ h.literalCondition? truth
  isDefault := h'.isDefault ∘ h.isDefault

/-- A node that neither ends nor is a literal. -/
lemma KeepsFlow.of_plain (hexits : other.exits = node.exits) (hends : node.ends = false)
    (hlit : node.literalCondition? = none) (hdef : node.isDefault = false) : node.KeepsFlow other :=
  ⟨hexits, fun h => absurd h (Bool.eq_false_iff.mp hends), fun _ h => absurd (hlit.symm.trans h) nofun,
    fun h => absurd h (Bool.eq_false_iff.mp hdef)⟩

lemma KeepsFlow.exitsAll_eq {pairs : List (Node × Node)} (h : ∀ pair ∈ pairs, pair.1.KeepsFlow pair.2) :
    exitsAll (pairs.map Prod.snd) = exitsAll (pairs.map Prod.fst) := by
  induction pairs with
  | nil => rfl
  | cons pair rest ih =>
    rw [map_cons, map_cons, exitsAll_cons, exitsAll_cons, (h pair (.head _)).exits_eq,
      ih (forall_mem_cons.mp h).2]

lemma KeepsFlow.endsArms {arms : List (Node × Node)} (h : ∀ arm ∈ arms, arm.1.KeepsFlow arm.2)
    (hends : endsArms (arms.map Prod.fst) = true) : endsArms (arms.map Prod.snd) = true := by
  induction arms with
  | nil => exact hends
  | cons arm rest ih =>
    have harm := h arm (.head _)
    have hrest := ih (forall_mem_cons.mp h).2
    rw [map_cons, Node.endsArms, Bool.and_eq_true, Bool.or_eq_true] at hends ⊢
    exact ⟨harm.ends hends.1, hends.2.imp harm.isDefault hrest⟩

lemma KeepsFlow.form (h : ∀ pair ∈ pairs.children, pair.1.KeepsFlow pair.2)
    : (Node.mk lbl (pairs.map Prod.fst)).KeepsFlow (.mk lbl (pairs.map Prod.snd)) := by
  have halways : ∀ {cond? : Option (Node × Node)}, (∀ pair ∈ cond?.toList, pair.1.KeepsFlow pair.2) →
      (cond?.map Prod.fst).all (fun cond => cond.literalCondition? = some true) = true →
      (cond?.map Prod.snd).all (fun cond => cond.literalCondition? = some true) = true := by
    intro cond? hc htrue
    cases cond? with
    | none => rfl
    | some pair =>
      simp only [Option.map_some, Option.all_some, decide_eq_true_eq] at htrue ⊢
      exact (hc pair (mem_singleton_self pair)).literalCondition? true htrue
  refine ⟨?_, fun hends => ?_, fun truth htruth => ?_, fun hdef => ?_⟩
  · have hall := exitsAll_eq h
    rw [← children_map, ← children_map] at hall
    rw [exits_mk, exits_mk]
    cases pairs <;> first | rfl | exact hall
  · rw [ends_mk] at hends ⊢
    cases pairs with
    | block stmts =>
      rw [map] at hends ⊢
      simp only [any_map, any_eq_true, Function.comp_apply] at hends ⊢
      obtain ⟨pair, hp, hends⟩ := hends
      exact ⟨pair, hp, (h pair hp).ends hends⟩
    | branch arms => exact endsArms h hends
    | arm cond? body => exact (h body (by simp [Form.children])).ends hends
    | loop kind init? cond? step? body =>
      have hbody := h body (by simp [Form.children])
      have hmem : ∀ pair ∈ cond?.toList, pair.1.KeepsFlow pair.2 :=
        fun pair hp => h pair (by simp_all [Form.children])
      have hcond := halways hmem
      simp only [Form.map, LoopKind.neverEnds, Bool.or_eq_true, Bool.and_eq_true, hbody.exits_eq] at hends ⊢
      rcases hends with ⟨htrue, hbreaks⟩ | ⟨⟨⟨hkind, hends⟩, hbreaks⟩, hcontinues⟩
      · exact .inl ⟨hcond htrue, hbreaks⟩
      · exact .inr ⟨⟨⟨hkind, hbody.ends hends⟩, hbreaks⟩, hcontinues⟩
    | _ => exact hends
  · rw [Node.literalCondition?, form_mk, literalCondition?_map] at htruth ⊢
    exact htruth
  · rw [Node.isDefault, form_mk] at hdef ⊢
    cases pairs with
    | arm cond? body => exact halways (fun pair hp => h pair (by simp_all [Form.children])) hdef
    | _ => exact hdef

lemma KeepsFlow.of_alike (h : node.KeepsFlow other) (ha : other.Alike third) : node.KeepsFlow third := by
  refine ⟨ha.exits_eq.symm.trans h.exits_eq, fun hends => ha.ends_eq.symm.trans (h.ends hends),
    fun truth htruth => ?_, fun hdef => ?_⟩
  · rw [← literalCondition?_erase, ← ha, literalCondition?_erase]
    exact h.literalCondition? truth htruth
  · rw [← isDefault_erase, ← ha, isDefault_erase]
    exact h.isDefault hdef

lemma exitsAll_filter {nodes : List Node} {f : Node → Node}
    (h : ∀ node ∈ nodes, keep node = false → (f node).exits = .never) :
    exitsAll ((nodes.filter keep).map f) = exitsAll (nodes.map f) := by
  induction nodes with
  | nil => rfl
  | cons node rest ih =>
    have hrest := ih (forall_mem_cons.mp h).2
    by_cases hkeep : keep node = true
    · rw [filter_cons_of_pos hkeep, map_cons, map_cons, exitsAll_cons, exitsAll_cons, hrest]
    · rw [filter_cons_of_neg hkeep, map_cons, exitsAll_cons, hrest,
        h node (.head _) (Bool.eq_false_iff.mpr hkeep), LoopExits.never_or]

lemma mem_dropLast_of_filter {nodes : List Node} (h : node ∈ (nodes.filter keep).dropLast) :
    node ∈ nodes.dropLast := by
  rcases eq_nil_or_concat nodes with rfl | ⟨rest, last, rfl⟩
  · exact h
  · rw [concat_eq_append] at h ⊢
    rw [dropLast_concat]
    rw [filter_append] at h
    cases hkeep : keep last with
    | false =>
      rw [filter_singleton, hkeep] at h
      exact (mem_filter.mp (dropLast_subset _ (by simpa using h))).1
    | true =>
      rw [filter_singleton, hkeep] at h
      exact (mem_filter.mp (by simpa using h)).1

/-- Trees in which control takes the same way.  The second is tidy if the first
is. -/
structure FlowsAs (node other : Node) : Prop where
  forth : node.KeepsFlow other
  back : other.KeepsFlow node
  tidy : node.Tidy → other.Tidy

namespace FlowsAs

lemma refl (node : Node) : node.FlowsAs node := ⟨.refl node, .refl node, fun h => h⟩

lemma trans (h : node.FlowsAs other) (h' : other.FlowsAs third) : node.FlowsAs third :=
  ⟨h.forth.trans h'.forth, h'.back.trans h.back, h'.tidy ∘ h.tidy⟩

lemma of_alike (h : node.Alike other) : node.FlowsAs other :=
  ⟨(KeepsFlow.refl node).of_alike h, (KeepsFlow.refl other).of_alike h.symm, fun ht => ht.of_alike h⟩

lemma ends_eq (h : node.FlowsAs other) : other.ends = node.ends := Bool.eq_iff_iff.mpr ⟨h.back.ends, h.forth.ends⟩

lemma form (h : ∀ pair ∈ pairs.children, pair.1.FlowsAs pair.2) :
    (Node.mk lbl (pairs.map Prod.fst)).FlowsAs (.mk lbl (pairs.map Prod.snd)) := by
  refine ⟨.form fun pair hp => (h pair hp).forth, ?_, fun htidy => ?_⟩
  · have hback : (Node.mk lbl ((pairs.map Prod.swap).map Prod.fst)).KeepsFlow
      (.mk lbl ((pairs.map Prod.swap).map Prod.snd)) := by
      refine .form fun pair hp => ?_
      obtain ⟨original, ho, rfl⟩ := mem_children_map.mp hp
      exact (h original ho).back
    rw [map_map, map_map] at hback
    exact hback
  · obtain ⟨hrule, hkids⟩ := tidy_mk.mp htidy
    refine tidy_mk.mpr ⟨?_, fun kid hc => ?_⟩
    · cases pairs with
      | block stmts =>
        intro statement hm
        change statement ∈ (stmts.map Prod.snd).dropLast at hm
        rw [← map_dropLast] at hm
        obtain ⟨pair, hp, rfl⟩ := mem_map.mp hm
        rw [(h pair (dropLast_subset _ hp)).ends_eq]
        refine hrule pair.1 ?_
        rw [← map_dropLast]
        exact mem_map_of_mem hp
      | _ => trivial
    · obtain ⟨pair, hp, rfl⟩ := mem_children_map.mp hc
      exact (h pair hp).tidy (hkids pair.1 (mem_children_map.mpr ⟨pair, hp, rfl⟩))

/-- Statements that neither jump nor end can be left out. -/
lemma filter {stmts : List Node} {f : Node → Node}
    (h : ∀ statement ∈ stmts, keep statement = false → (f statement).exits = .never ∧
      (f statement).ends = false) :
    (Node.mk lbl (.block (stmts.map f))).FlowsAs (.mk lbl (.block ((stmts.filter keep).map f))) := by
  have hexits : (Node.mk lbl (.block ((stmts.filter keep).map f))).exits =
      (Node.mk lbl (.block (stmts.map f))).exits := by
    rw [exits_mk, exits_mk]
    exact exitsAll_filter fun statement hm hkeep => (h statement hm hkeep).1
  refine ⟨⟨hexits, fun hends => ?_, nofun, nofun⟩, ⟨hexits.symm, fun hends => ?_, nofun, nofun⟩,
    fun htidy => ?_⟩
  · rw [ends_mk] at hends ⊢
    simp only [any_map, any_eq_true, Function.comp_apply] at hends ⊢
    obtain ⟨last, hm, hends⟩ := hends
    refine ⟨last, mem_filter.mpr ⟨hm, ?_⟩, hends⟩
    by_contra hkeep
    rw [(h last hm (Bool.eq_false_iff.mpr hkeep)).2] at hends
    cases hends
  · rw [ends_mk] at hends ⊢
    simp only [any_map, any_eq_true, Function.comp_apply] at hends ⊢
    exact hends.imp fun last h => ⟨(mem_filter.mp h.1).1, h.2⟩
  · obtain ⟨hrule, hkids⟩ := tidy_mk.mp htidy
    refine tidy_mk.mpr ⟨fun statement hm => ?_, fun statement hm => hkids statement ?_⟩
    · rw [← map_dropLast] at hm
      obtain ⟨original, ho, rfl⟩ := mem_map.mp hm
      refine hrule _ ?_
      rw [← map_dropLast]
      exact mem_map_of_mem (mem_dropLast_of_filter ho)
    · obtain ⟨original, ho, rfl⟩ := mem_map.mp hm
      exact mem_map_of_mem (mem_filter.mp ho).1

/-- So can the step of a loop. -/
lemma withoutStep {kind : LoopKind} {init? cond? : Option Node} {step body : Node} :
    (Node.mk lbl (.loop kind init? cond? (some step) body)).FlowsAs
    (.mk lbl (.loop kind init? cond? none body)) := by
  refine ⟨⟨rfl, fun hends => ?_, nofun, nofun⟩, ⟨rfl, fun hends => ?_, nofun, nofun⟩, fun htidy => ?_⟩
  · rw [ends_mk] at hends ⊢
    exact hends
  · rw [ends_mk] at hends ⊢
    exact hends
  · exact tidy_mk.mpr ⟨trivial, fun kid hm => (tidy_mk.mp htidy).2 kid (Form.mem_children_of_withoutStep hm)⟩

end FlowsAs

/-- A dead statement neither jumps nor ends. -/
lemma flow_of_isDeadStatement (ht : node.Typed table)
    (hd : isDeadStatement table uses node = true) : node.exits = .never ∧ node.ends = false := by
  by_cases hdecl : node.form.isDeclare = true
  · exact ⟨(exits_tidy_of_isDeclare ht hdecl).1, ends_of_isDeclare hdecl⟩
  · have hexpr : node.form.isExpression = true := by
      unfold isDeadStatement at hd
      split at hd
      · rename_i hform
        rw [hform] at hdecl
        exact absurd rfl hdecl
      · exact (Bool.and_eq_true _ _ ▸ hd).1
    exact ⟨(exits_tidy_of_isExpression ht hexpr).1, ends_of_isExpression hexpr⟩

end Node

/-! ## What is kept -/

/-- What removing dead stores keeps of a tree. -/
structure Node.KeptBy (table : SymbolTable) (node swept : Node) : Prop where
  typed : swept.Typed table
  standsIn : node.StandsIn swept
  flow : node.KeepsFlow swept
  checked : ∀ {result}, node.Checked table result → swept.Checked table result
  readable : node.Readable table .read → swept.Readable table .read

namespace Node

lemma Alike.adopt (lbl : Label) (form : Form Node) : (Node.mk lbl form).Alike (.mk lbl (Node.adopt lbl.id form)) :=
  .withForm (.mk lbl .empty) form

namespace KeptBy

variable {swept : Node}

lemma trans (h : node.KeptBy table swept) (h' : swept.KeptBy table third) : node.KeptBy table third :=
  ⟨h'.typed, h.standsIn.trans h'.standsIn, h.flow.trans h'.flow, h'.checked ∘ h.checked,
    h'.readable ∘ h.readable⟩

lemma of_alike (h : node.KeptBy table swept) (ha : swept.Alike third) : node.KeptBy table third :=
  ⟨h.typed.of_alike ha, h.standsIn.of_alike ha, h.flow.of_alike ha, fun hc => (h.checked hc).of_alike ha,
    fun hr => (h.readable hr).of_alike ha⟩

lemma form (ht : (Node.mk lbl (pairs.map Prod.fst)).Typed table)
    (h : ∀ pair ∈ pairs.children, pair.1.KeptBy table pair.2) :
    (Node.mk lbl (pairs.map Prod.fst)).KeptBy table (.mk lbl (pairs.map Prod.snd)) := by
  have hstands := fun pair hp => (h pair hp).standsIn
  obtain ⟨⟨hvalid, hrule⟩, -⟩ := typed_mk.mp ht
  have hkids : ∀ {p : Node → Prop}, (∀ pair ∈ pairs.children, p pair.2) →
      ∀ kid ∈ (pairs.map Prod.snd).children, p kid := by
    intro p hp kid hc
    obtain ⟨pair, hm, rfl⟩ := mem_children_map.mp hc
    exact hp pair hm
  refine ⟨typed_mk.mpr ⟨⟨hvalid, StandsIn.formRule hstands hrule⟩, hkids fun pair hp => (h pair hp).typed⟩,
    .form hstands, .form fun pair hp => (h pair hp).flow, fun hc => ?_, fun hr => ?_⟩
  · obtain ⟨hrule, hin⟩ := checked_mk.mp hc
    exact checked_mk.mpr ⟨StandsIn.checkRule hstands hrule,
      hkids fun pair hp => (h pair hp).checked (hin pair.1 (mem_children_map.mpr ⟨pair, hp, rfl⟩))⟩
  · exact readable_mk.mpr (StandsIn.readRule hstands ht (fun pair hp => (h pair hp).readable) (readable_mk.mp hr))

/-- A block or a loop with some of its children. -/
lemma fewer {form less : Form Node} (ht : (Node.mk lbl form).Typed table) (hrule : FormRule table lbl.type less)
    (hcheck : ∀ {result}, CheckRule table result (.mk lbl less))
    (hsub : ∀ kid ∈ less.children, kid ∈ form.children)
    (hreads : form.readsChildren = true) (hreads' : less.readsChildren = true)
    (hs : (Node.mk lbl form).StandsIn (.mk lbl less)) (hflow : (Node.mk lbl form).KeepsFlow (.mk lbl less)) :
    (Node.mk lbl form).KeptBy table (.mk lbl (adopt lbl.id less)) := by
  refine KeptBy.of_alike ⟨typed_mk.mpr ⟨⟨ht.valid, hrule⟩, fun kid hm => ht.child (hsub kid hm)⟩, hs, hflow,
    fun hc => ?_, fun hr => ?_⟩ (.adopt lbl less)
  · exact checked_mk.mpr ⟨hcheck, fun kid hm => (checked_mk.mp hc).2 kid (hsub kid hm)⟩
  · exact (readable_iff_of_readsChildren hreads').mpr fun kid hm =>
      (readable_iff_of_readsChildren hreads).mp hr kid (hsub kid hm)

end KeptBy

end Node

lemma Sweeps.kept {swept : Node} (h : Sweeps table uses node swept) (ht : node.Typed table) :
    node.KeptBy table swept := by
  induction h with
  | form pairs children ih =>
    exact .form ht fun pair hp => ih pair hp (ht.child (mem_children_map.mpr ⟨pair, hp, rfl⟩))
  | @collapse lbl tgt val swept isDead inside ih =>
    have hmem : val ∈ (Form.binary .assign tgt val).children := .tail _ (.head _)
    have hval := ih (ht.child hmem)
    obtain ⟨-, hexpr, -, htypes, htakes⟩ := ht.rule
    have hswept := hval.standsIn.isExpression_eq.trans hexpr
    refine Node.KeptBy.of_alike ⟨hval.typed, .of_isExpression rfl hswept ?_ rfl,
      .of_plain ?_ (ends_of_isExpression rfl) rfl rfl,
      fun hc => hval.checked ((checked_mk.mp hc).2 val hmem), fun hr => hval.readable (readable_mk.mp hr).2⟩
      (.replaceBy (.mk lbl .empty) swept)
    · exact hval.standsIn.type_eq.trans (htypes.symm.trans htakes.symm)
    · rw [(exits_tidy_of_isExpression hval.typed hswept).1, (exits_tidy_of_isExpression ht rfl).1]
  | @statements lbl node nodes inside ih =>
    have hblk := ih ht
    have hflow := @FlowsAs.filter lbl (fun node => !isDeadStatement table uses node) nodes id fun node hm hkeep =>
      flow_of_isDeadStatement (hblk.typed.child hm) (by simpa using hkeep)
    rw [List.map_id, List.map_id] at hflow
    refine hblk.trans (.fewer hblk.typed (fun node hm => hblk.typed.rule node (mem_filter.mp hm).1) trivial
      (fun node hm => (mem_filter.mp hm).1) rfl rfl ?_ hflow.forth)
    exact ⟨rfl, rfl, rfl, rfl, rfl, rfl, rfl, fun hi node hm => hi node (mem_filter.mp hm).1, fun h => by cases h⟩
  | @step lbl node kind init? cond? step body inside isPure ih =>
    have hloop := ih ht
    obtain ⟨hinit, hcond, -, hbody⟩ := hloop.typed.rule
    refine hloop.trans (.fewer hloop.typed ⟨hinit, hcond, (by simp), hbody⟩ trivial
      (fun kid hm => Form.mem_children_of_withoutStep hm) rfl rfl ?_ FlowsAs.withoutStep.forth)
    exact ⟨rfl, rfl, rfl, rfl, rfl, rfl, rfl, (fun hi => by cases hi), fun h => by cases h⟩

lemma SweptTo.kept {swept : Node} (h : SweptTo table node swept) (ht : node.Typed table) :
    node.KeptBy table swept := by
  induction h with
  | refl => exact ⟨ht, .refl node, .refl node, fun h => h, fun h => h⟩
  | tail _ last ih =>
    obtain ⟨uses, hsweeps⟩ := last
    exact ih.trans (hsweeps.kept ih.typed)

end Shading
