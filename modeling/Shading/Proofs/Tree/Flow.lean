import Shading.Proofs.Run.Equations

/-!
# How control leaves a tree

`Node.exits` says which jumps out of the innermost loop are below a node, and
`Node.ends` that control never gets past it.  Runs agree with both:
`Node.exits_of_run` and `Node.run_ne_normal_of_ends`.  In a tidy tree no
statement stands behind one that ends.
-/

namespace Shading

open Meaning
open List hiding choose

variable {a b node : Node} {nodes : List Node} {cond? : Option Node}

namespace LoopExits

/-- No jump. -/
def never : LoopExits := ⟨false, false⟩

def or (a b : LoopExits) : LoopExits := ⟨a.breaks || b.breaks, a.continues || b.continues⟩

@[simp] lemma breaks_or (a b : LoopExits) : (a.or b).breaks = (a.breaks || b.breaks) := rfl

@[simp] lemma continues_or (a b : LoopExits) : (a.or b).continues = (a.continues || b.continues) := rfl

@[simp] lemma or_never (a : LoopExits) : a.or never = a := by
  cases a
  simp [or, never]

@[simp] lemma never_or (a : LoopExits) : never.or a = a := rfl

lemma or_assoc (a b c : LoopExits) : (a.or b).or c = a.or (b.or c) := by
  simp [or, Bool.or_assoc]

end LoopExits

namespace Node

/-! ## Jumps -/

/-- Jumps of a form, given those of its children. -/
def formExits (form : Form (Node × LoopExits)) : LoopExits :=
  match form with
  | .breakLoop => ⟨true, false⟩
  | .continueLoop => ⟨false, true⟩
  -- Jumps in a loop stay in it.
  | .loop .. => .never
  | form => form.children.foldr (fun child exits => child.2.or exits) .never

/-- Jumps below a node out of the loop it stands in. -/
def exits (node : Node) : LoopExits := node.fold fun _ => formExits

def exitsAll (nodes : List Node) : LoopExits := nodes.foldr (fun node exits => node.exits.or exits) .never

@[simp] lemma exitsAll_nil : exitsAll [] = .never := rfl

@[simp] lemma exitsAll_cons (node : Node) (rest : List Node) :
    exitsAll (node :: rest) = node.exits.or (exitsAll rest) := rfl

lemma exits_mk (lbl : Label) (form : Form Node) : (mk lbl form).exits = match form with
    | .breakLoop => ⟨true, false⟩
    | .continueLoop => ⟨false, true⟩
    | .loop .. => .never
    | form => exitsAll form.children := by
  rw [exits, fold_mk]
  cases form <;> first | rfl | (rw [Form.map]; simp only [formExits, Form.children, exitsAll, foldr_map]; try rfl)
  · rename_i cond? body
    cases cond? <;> rfl
  · rename_i value?
    cases value? <;> rfl
  · rename_i sym ini?
    cases ini? <;> rfl

@[simp] lemma exits_erase (node : Node) : node.erase.exits = node.exits := by
  refine fold_erase _ (fun lbl form => ?_) node
  have : ∀ form : Form (Node × LoopExits), ((form.map fun kid => (kid.1.erase, kid.2)).children.foldr
      (fun kid exits => kid.2.or exits) .never : LoopExits) =
        form.children.foldr (fun kid exits => kid.2.or exits) .never := by
    intro form
    rw [Form.children_map, foldr_map]
  cases form <;> first | rfl | exact this _

lemma Alike.exits_eq (h : a.Alike b) : a.exits = b.exits := by
  rw [← exits_erase a, h, exits_erase]

lemma breaks_of_mem (hm : node ∈ nodes) (h : node.exits.breaks = true) : (exitsAll nodes).breaks = true := by
  induction nodes with
  | nil => cases hm
  | cons first rest ih =>
    rw [exitsAll_cons, LoopExits.breaks_or, Bool.or_eq_true]
    rcases mem_cons.mp hm with rfl | hm
    · exact .inl h
    · exact .inr (ih hm)

lemma continues_of_mem (hm : node ∈ nodes) (h : node.exits.continues = true) :
    (exitsAll nodes).continues = true := by
  induction nodes with
  | nil => cases hm
  | cons first rest ih =>
    rw [exitsAll_cons, LoopExits.continues_or, Bool.or_eq_true]
    rcases mem_cons.mp hm with rfl | hm
    · exact .inl h
    · exact .inr (ih hm)

/-! ## Ends -/

/-- An `else`, or an arm whose condition is the literal `true`. -/
def isDefault (arm : Node) : Bool :=
  match arm.form with
  | .arm cond? _ => cond?.all fun cond => cond.literalCondition? = some true
  | _ => false

/-- All arms up to the first default end, and there is one. -/
def armsEnd : List (Node × Bool) → Bool
  | [] => false
  | (arm, ends) :: rest => ends && (arm.isDefault || armsEnd rest)

/-- Whether control never gets past a form, given this of its children. -/
def formEnds (form : Form (Node × Bool)) : Bool :=
  match form with
  | .block stmts => stmts.any Prod.snd
  | .branch arms => armsEnd arms
  | .arm _ body => body.2
  | .loop kind _ cond? _ body =>
    kind.neverEnds (cond?.all fun cond => cond.1.literalCondition? = some true) body.2 body.1.exits
  | .breakLoop | .continueLoop | .returnValue _ => true
  | _ => false

/-- Control never gets past the node. -/
def ends (node : Node) : Bool := node.fold fun _ => formEnds

/-- Control never gets past a branch with these arms. -/
def endsArms : List Node → Bool
  | [] => false
  | arm :: rest => arm.ends && (arm.isDefault || endsArms rest)

lemma ends_mk (lbl : Label) (form : Form Node) : (mk lbl form).ends = match form with
    | .block stmts => stmts.any ends
    | .branch arms => endsArms arms
    | .arm _ body => body.ends
    | .loop kind _ cond? _ body =>
      kind.neverEnds (cond?.all fun cond => cond.literalCondition? = some true) body.ends body.exits
    | .breakLoop | .continueLoop | .returnValue _ => true
    | _ => false := by
  have harms : ∀ arms : List Node, armsEnd (arms.map fun kid => (kid, kid.fold fun _ => formEnds)) =
      endsArms arms := by
    intro arms
    induction arms with
    | nil => rfl
    | cons arm rest ih =>
      rw [map_cons, armsEnd, ih]
      rfl
  rw [ends, fold_mk]
  cases form with
  | block stmts =>
    change ((stmts.map _).any _) = _
    rw [any_map]
    rfl
  | branch arms => exact harms arms
  | loop kind init? cond? step? body => cases cond? <;> rfl
  | _ => rfl

@[simp] lemma isDefault_erase (arm : Node) : arm.erase.isDefault = arm.isDefault := by
  obtain ⟨lbl, form⟩ := arm
  rw [isDefault, isDefault, form_erase, form_mk]
  cases form with
  | arm cond? body => cases cond? <;> simp [Form.map]
  | _ => rfl

@[simp] lemma ends_erase (node : Node) : node.erase.ends = node.ends := by
  refine fold_erase _ (fun lbl form => ?_) node
  have harms : ∀ arms : List (Node × Bool), armsEnd (arms.map fun kid => (kid.1.erase, kid.2)) =
      armsEnd arms := by
    intro arms
    induction arms with
    | nil => rfl
    | cons arm rest ih => rw [map_cons, armsEnd, armsEnd, isDefault_erase, ih]
  cases form with
  | block stmts =>
    change ((stmts.map _).any _) = _
    rw [any_map]
    rfl
  | branch arms => exact harms arms
  | loop kind init? cond? step? body =>
    cases cond? <;> simp [Form.map, formEnds]
  | _ => rfl

lemma Alike.ends_eq (h : a.Alike b) : a.ends = b.ends := by
  rw [← ends_erase a, h, ends_erase]

lemma ends_of_isExpression (h : node.form.isExpression = true) : node.ends = false := by
  obtain ⟨lbl, form⟩ := node
  rw [ends_mk]
  cases form <;> first | rfl | cases h

lemma ends_of_isDeclare (h : node.form.isDeclare = true) : node.ends = false := by
  obtain ⟨lbl, form⟩ := node
  rw [ends_mk]
  cases form <;> first | rfl | cases h

/-- The start of a loop ends normally. -/
lemma ends_of_isInit (h : node.IsInit) : node.ends = false := by
  rcases isInit_iff.mp h with ⟨stmts, hform, hall⟩ | hd | he
  · obtain ⟨lbl, form⟩ := node
    obtain rfl : form = .block stmts := hform
    rw [ends_mk, any_eq_false]
    intro statement hm
    rw [ends_of_isDeclare (hall statement hm)]
    exact Bool.false_ne_true
  · exact ends_of_isDeclare hd
  · exact ends_of_isExpression he

/-! ## Tidy trees -/

/-- No statement of a block stands behind one that ends. -/
def TidyRule (node : Node) : Prop :=
  match node.form with
  | .block stmts => ∀ statement ∈ stmts.dropLast, statement.ends = false
  | _ => True

/-- No statement below the node stands behind one that ends. -/
def Tidy (node : Node) : Prop := node.Everywhere TidyRule

lemma tidyRule_erase (node : Node) : TidyRule node.erase ↔ TidyRule node := by
  obtain ⟨lbl, form⟩ := node
  rw [TidyRule, TidyRule, form_erase, form_mk]
  cases form with
  | block stmts => simp [Form.map, ← map_dropLast]
  | _ => exact Iff.rfl

lemma tidy_mk {lbl : Label} {form : Form Node} :
    (mk lbl form).Tidy ↔ TidyRule (mk lbl form) ∧ ∀ kid ∈ form.children, kid.Tidy :=
  everywhere_mk

lemma Tidy.of_alike (h : a.Tidy) (hab : a.Alike b) : b.Tidy :=
  Everywhere.of_alike h hab tidyRule_erase

section

variable {tbl : SymbolTable} {node : Node}

/-- Children of an expression are expressions. -/
lemma Typed.isExpression_of_mem {kid : Node} (ht : node.Typed tbl) (he : node.form.isExpression = true)
    (hc : kid ∈ node.form.children) : kid.form.isExpression = true := by
  have hrule := ht.rule
  obtain ⟨lbl, form⟩ := node
  rw [form_mk] at hc hrule he
  cases form with
  | swizzle obj field | unary op opd =>
    obtain rfl := mem_singleton.mp hc
    exact hrule.1
  | binary op lhs rhs =>
    simp only [Form.children, mem_cons, not_mem_nil, or_false] at hc
    rcases hc with rfl | rfl
    · exact hrule.1
    · exact hrule.2.1
  | call callee args => exact hrule.1 kid hc
  | var _ | immediate _ => cases hc
  | _ => cases he

lemma exitsAll_eq_never (h : ∀ node ∈ nodes, node.exits = .never) : exitsAll nodes = .never := by
  induction nodes with
  | nil => rfl
  | cons node rest ih =>
    rw [exitsAll_cons, h node (.head _), ih (forall_mem_cons.mp h).2]
    rfl

/-- An expression has neither jumps nor blocks. -/
lemma exits_tidy_of_isExpression (ht : node.Typed tbl) (he : node.form.isExpression = true) :
    node.exits = .never ∧ node.Tidy := by
  induction node with
  | mk lbl form ih =>
    have hkid := fun kid hc => ih kid hc (ht.child hc) (ht.isExpression_of_mem he hc)
    refine ⟨?_, tidy_mk.mpr ⟨?_, fun kid hc => (hkid kid hc).2⟩⟩
    · have hall := exitsAll_eq_never fun kid hc => (hkid kid hc).1
      rw [exits_mk]
      cases form <;> first | exact hall | cases he
    · cases form <;> trivial

lemma exits_tidy_of_isDeclare (ht : node.Typed tbl) (hd : node.form.isDeclare = true) :
    node.exits = .never ∧ node.Tidy := by
  obtain ⟨lbl, form⟩ := node
  obtain ⟨sym, ini?, hform⟩ := Form.eq_declare_of_isDeclare hd
  obtain rfl : form = .declare sym ini? := hform
  have hkid : ∀ kid ∈ (Form.declare sym ini?).children, kid.exits = .never ∧ kid.Tidy := by
    intro kid hc
    refine exits_tidy_of_isExpression (ht.child hc) (ht.rule.2.2.2 kid (Option.mem_toList.mp hc)).1
  refine ⟨?_, tidy_mk.mpr ⟨trivial, fun kid hc => (hkid kid hc).2⟩⟩
  rw [exits_mk]
  exact exitsAll_eq_never fun kid hc => (hkid kid hc).1

lemma exits_tidy_of_isInit (ht : node.Typed tbl) (hi : node.IsInit) : node.exits = .never ∧ node.Tidy := by
  rcases isInit_iff.mp hi with ⟨stmts, hform, hall⟩ | hd | he
  · obtain ⟨lbl, form⟩ := node
    obtain rfl : form = .block stmts := hform
    have hflow := fun statement hm => exits_tidy_of_isDeclare (ht.child hm) (hall statement hm)
    rw [exits_mk]
    exact ⟨exitsAll_eq_never fun statement hm => (hflow statement hm).1, tidy_mk.mpr
      ⟨fun statement hm => ends_of_isDeclare (hall statement (dropLast_subset _ hm)), fun kid hm =>
        (hflow kid hm).2⟩⟩
  · exact exits_tidy_of_isDeclare ht hd
  · exact exits_tidy_of_isExpression ht he

end

/-! ## Runs -/

/-- Whether a node can end in a way, by its jumps and ends. -/
def Allows (node : Node) : Completion → Prop
  | .normal => node.ends = false
  | .breaks => node.exits.breaks = true
  | .continues => node.exits.continues = true
  | .returns _ => True

section

variable {σ : Type} {run : Node → RunnerOf σ} {val : Node → EvaluatorOf σ} {k : Nat} {store last : σ}
  {completion : Completion} {lbl : Label}

/-- Statements in a row end as one of them does. -/
lemma allows_of_sequence (hn : ∀ node ∈ nodes, ∀ {store last completion},
    run node k store = some (completion, last) → node.Allows completion)
    (h : Meaning.sequence (nodes.map run) k store = some (completion, last)) :
    (completion = .normal ∧ ∀ node ∈ nodes, node.Allows .normal) ∨
      (completion ≠ .normal ∧ ∃ node ∈ nodes, node.Allows completion) := by
  induction nodes generalizing store with
  | nil =>
    cases h
    exact .inl ⟨rfl, by simp⟩
  | cons first rest ih =>
    rw [map_cons, Meaning.sequence] at h
    cases hfirst : run first k store with
    | none =>
      rw [hfirst] at h
      cases h
    | some res =>
      obtain ⟨ending, mid⟩ := res
      have hallows := hn first (.head _) hfirst
      by_cases hnormal : ending = .normal
      · subst hnormal
        rw [hfirst] at h
        rcases ih (forall_mem_cons.mp hn).2 h with ⟨rfl, hrest⟩ | ⟨hne, node, hm, hnode⟩
        · refine .inl ⟨rfl, fun node hm => ?_⟩
          rcases mem_cons.mp hm with rfl | hm
          · exact hallows
          · exact hrest node hm
        · exact .inr ⟨hne, node, mem_cons_of_mem _ hm, hnode⟩
      · have hsame : some (ending, mid) = some (completion, last) := by
          rw [hfirst] at h
          cases ending <;> first | exact h | exact absurd rfl hnormal
        cases hsame
        exact .inr ⟨hnormal, first, mem_cons_self .., hallows⟩

lemma allows_block {stmts : List Node} (h : (completion = .normal ∧ ∀ node ∈ stmts, node.Allows .normal) ∨
      (completion ≠ .normal ∧ ∃ node ∈ stmts, node.Allows completion)) :
    (mk lbl (.block stmts)).Allows completion := by
  rcases h with ⟨rfl, hall⟩ | ⟨hne, node, hm, hnode⟩
  · rw [Allows, ends_mk, any_eq_false]
    exact fun node hm => Bool.eq_false_iff.mp (hall node hm)
  · cases completion with
    | normal => exact absurd rfl hne
    | breaks =>
      rw [Allows, exits_mk]
      exact breaks_of_mem hm hnode
    | continues =>
      rw [Allows, exits_mk]
      exact continues_of_mem hm hnode
    | returns value? => trivial

/-- What the body of an arm allows, the arm allows. -/
lemma allows_arm {body : Node} (h : body.Allows completion) : (mk lbl (.arm cond? body)).Allows completion := by
  cases completion with
  | normal =>
    rw [Allows, ends_mk]
    exact h
  | breaks =>
    rw [Allows, exits_mk]
    exact breaks_of_mem (mem_append_right _ (mem_singleton_self body)) h
  | continues =>
    rw [Allows, exits_mk]
    exact continues_of_mem (mem_append_right _ (mem_singleton_self body)) h
  | returns value? => trivial

/-- What an arm does, given what conditions and bodies do. -/
def armOf? (value : Node → EvaluatorOf σ) (run : Node → RunnerOf σ) (arm : Node) :
    Option (Option (EvaluatorOf σ) × RunnerOf σ) :=
  match arm.form with
  | .arm cond? body => some (cond?.map value, run body)
  | _ => none

lemma armOf?_arm (cond? : Option Node) (body : Node) :
    armOf? val run (mk lbl (.arm cond? body)) = some (cond?.map val, run body) := rfl

/-- A branch ends as one of its arms does. -/
lemma allows_of_choose {arms : List Node} (harm : ∀ arm ∈ arms, arm.form.isArm = true)
    (hval : ∀ {cond truth store}, cond.literalCondition? = some truth → val cond store = (.bool truth, store))
    (hn : ∀ arm ∈ arms, ∀ body ∈ arm.form.children, ∀ {store last completion},
      run body k store = some (completion, last) → body.Allows completion)
    (h : choose (arms.filterMap (armOf? val run)) k store = some (completion, last)) :
    (mk lbl (.branch arms)).Allows completion := by
  induction arms generalizing store with
  | nil =>
    cases h
    rfl
  | cons arm rest ih =>
    obtain ⟨armLabel, form⟩ := arm
    obtain ⟨cond?, body, hform⟩ := Form.eq_arm_of_isArm (harm _ (.head _))
    obtain rfl : form = .arm cond? body := hform
    have hbody : body ∈ (Form.arm cond? body).children := mem_append_right _ (mem_singleton_self body)
    rw [filterMap_cons_some (armOf?_arm cond? body)] at h
    -- The arm that runs decides, and one that is a default is the last.
    have hfirst : ∀ {store last}, run body k store = some (completion, last) →
        (mk lbl (.branch (mk armLabel (.arm cond? body) :: rest))).Allows completion := by
      intro store last hrun
      have hallows : (mk armLabel (.arm cond? body)).Allows completion :=
        allows_arm (hn _ (.head _) body hbody hrun)
      cases completion with
      | normal =>
        rw [Allows, ends_mk]
        simp only [endsArms]
        rw [show (mk armLabel (.arm cond? body)).ends = false from hallows, Bool.false_and]
      | breaks =>
        rw [Allows, exits_mk]
        exact breaks_of_mem (.head _) hallows
      | continues =>
        rw [Allows, exits_mk]
        exact continues_of_mem (.head _) hallows
      | returns value? => trivial
    cases cond? with
    | none => exact hfirst h
    | some cond =>
      rw [Option.map_some, choose] at h
      dsimp only at h
      split at h
      · exact hfirst h
      · rename_i hfalse
        have hdef : (mk armLabel (.arm (some cond) body)).isDefault = false := by
          simp only [isDefault, form_mk, Option.all_some, decide_eq_false_iff_not]
          intro hlit
          rw [hval hlit] at hfalse
          exact hfalse rfl
        have hallows := ih (forall_mem_cons.mp harm).2 (forall_mem_cons.mp hn).2 h
        cases completion with
        | normal =>
          rw [Allows, ends_mk] at hallows ⊢
          simp only [endsArms, hdef, Bool.false_or]
          rw [show endsArms rest = false from hallows, Bool.and_false]
        | breaks | continues =>
          rw [Allows, exits_mk] at hallows ⊢
          exact Bool.or_eq_true _ _ ▸ .inr hallows
        | returns value? => trivial

/-- How the rounds of a loop can end: by a return, by a break, or by the test
behind a round. -/
def RoundsEnd (body : RunnerOf σ) (cond? : Option (EvaluatorOf σ)) (completion : Completion) : Prop :=
  (∃ value?, completion = .returns value?) ∨ completion = .normal ∧
    ((∃ rounds before after, body rounds before = some (.breaks, after)) ∨
      (∃ before, (test cond? before).1 = false) ∧
        ∃ rounds before ending after, body rounds before = some (ending, after) ∧
          (ending = .normal ∨ ending = .continues))

lemma roundsEnd_of_repeated {body : RunnerOf σ} {cond? step? : Option (EvaluatorOf σ)}
    (h : repeated body cond? step? k store = some (completion, last)) :
    RoundsEnd body cond? completion := by
  induction k generalizing store with
  | zero => cases h
  | succ k ih =>
    rw [repeated] at h
    cases hbody : body k store with
    | none =>
      rw [hbody] at h
      cases h
    | some res =>
      obtain ⟨ending, mid⟩ := res
      rw [hbody] at h
      have hround : (ending = .normal ∨ ending = .continues) → (if (test cond? (advance step? mid)).1 then
            repeated body cond? step? k (test cond? (advance step? mid)).2
          else some (.normal, (test cond? (advance step? mid)).2)) = some (completion, last) →
          RoundsEnd body cond? completion := by
        intro hending h
        split at h
        · exact ih h
        · rename_i htest
          obtain ⟨rfl, -⟩ := Prod.mk.inj (Option.some.inj h)
          exact .inr ⟨rfl, .inr ⟨⟨_, Bool.not_eq_true _ ▸ htest⟩, k, store, ending, mid, hbody, hending⟩⟩
      cases ending with
      | normal => exact hround (.inl rfl) h
      | continues => exact hround (.inr rfl) h
      | breaks =>
        cases h
        exact .inr ⟨rfl, .inl ⟨k, store, _, hbody⟩⟩
      | returns value? =>
        cases h
        exact .inl ⟨value?, rfl⟩

section

variable (hval : ∀ {cond truth store}, cond.literalCondition? = some truth → val cond store = (.bool truth, store))
include hval

/-- A condition that is always true does not end a loop. -/
lemma test_of_literal (h : cond?.all (fun cond => cond.literalCondition? = some true) = true) :
    test (cond?.map val) store = (true, store) := by
  cases cond? with
  | none => rfl
  | some cond =>
    rw [Option.all_some, decide_eq_true_eq] at h
    rw [Option.map_some, test]
    dsimp only
    rw [hval h]
    rfl

lemma allows_of_loop {kind : LoopKind} {init? step? : Option Node} {body : Node}
    {advance? : Option (EvaluatorOf σ)}
    (hbody : ∀ {k store last completion}, run body k store = some (completion, last) → body.Allows completion)
    (h : loop kind (cond?.map val) advance? (run body) k store = some (completion, last)) :
    (mk lbl (.loop kind init? cond? step? body)).Allows completion := by
  have hcond {store : σ} (htest : (test (cond?.map val) store).1 ≠ true) :
      cond?.all (fun cond => cond.literalCondition? = some true) = false := by
    rw [Bool.eq_false_iff]
    intro hlit
    rw [test_of_literal hval hlit] at htest
    exact htest rfl
  have hrepeated : ∀ {store}, repeated (run body) (cond?.map val) advance? k store =
      some (completion, last) → (mk lbl (.loop kind init? cond? step? body)).Allows completion := by
    intro store h
    rcases roundsEnd_of_repeated h with ⟨value?, rfl⟩ | ⟨rfl, ⟨k, pre, after, hbreak⟩ |
      ⟨⟨tested, htest⟩, k, pre, ending, after, hrun, hending⟩⟩
    · trivial
    · have hbreaks : body.exits.breaks = true := hbody hbreak
      rw [Allows, ends_mk]
      simp [LoopKind.neverEnds, hbreaks]
    · rw [Allows, ends_mk]
      simp only [LoopKind.neverEnds, hcond (Bool.eq_false_iff.mp htest), Bool.false_and, Bool.false_or]
      rcases hending with rfl | rfl
      · have hends : body.ends = false := hbody hrun
        simp [hends]
      · have hcontinues : body.exits.continues = true := hbody hrun
        simp [hcontinues]
  rw [loop] at h
  split at h
  · rename_i hpretest
    dsimp only at h
    split at h
    · exact hrepeated h
    · rename_i htest
      cases h
      rw [Allows, ends_mk]
      cases kind <;> first | (simp [LoopKind.neverEnds, hcond htest]; done) | cases hpretest
  · exact hrepeated h

end

end

lemma armMeaning?_eq_armOf? (sem : Interpretation) (tbl : SymbolTable) :
    (fun arm : Node => arm.armMeaning? sem tbl) = armOf? (·.value sem tbl) (·.run sem tbl) := by
  funext ⟨lbl, form⟩
  rw [armMeaning?, meaning_mk]
  cases form with
  | arm cond? body => cases cond? <;> rfl
  | _ => rfl

/-- A run ends as the jumps and ends of the tree allow. -/
lemma allows_of_run {sem : Interpretation} {tbl : SymbolTable} (ht : node.Typed tbl)
    (harm : node.form.isArm = false) : ∀ {k store last completion}, node.run sem tbl k store = some (completion, last) →
      node.Allows completion := by
  refine Typed.parts_induction (motive := fun node => ∀ {k store last completion},
    node.run sem tbl k store = some (completion, last) → node.Allows completion)
    (fun lbl form ht harm ih => ?_) node ht harm
  intro k store last completion h
  have hrule := (typed_mk.mp ht).1.2
  cases form with
  | program functions | function sym params body => exact hrule.elim
  | arm cond? body => cases harm
  | block stmts =>
    rw [run_block] at h
    exact allows_block (allows_of_sequence (fun node hm => ih node hm) h)
  | branch arms =>
    rw [run_branch] at h
    rw [armMeaning?_eq_armOf?] at h
    exact allows_of_choose hrule.1 (fun h => value_of_literalCondition? h _)
      (fun arm ha body hb => ih body (mem_flatMap.mpr ⟨arm, ha, hb⟩)) h
  | loop kind init? cond? step? body =>
    obtain ⟨mid, hmid⟩ := exists_run_of_isInit hrule.1 store
    rw [run_loop_of_init (hmid k)] at h
    exact allows_of_loop (fun h => value_of_literalCondition? h _) (ih body (by simp [parts, Form.children])) h
  | breakLoop | continueLoop =>
    cases h
    rw [Allows, exits_mk]
  | returnValue value? =>
    rw [run_return] at h
    cases value? <;> cases h <;> trivial
  | declare sym ini? =>
    rw [run_declare] at h
    cases ini? <;> cases h <;> exact ends_of_isDeclare rfl
  | _ =>
    rw [run_expression rfl] at h
    cases h
    exact ends_of_isExpression rfl

end Node

end Shading
