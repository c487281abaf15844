import Shading.Proofs.Simplify.Seen

/-!
# Where lowering stops

`Node.stops` says that lowering leaves no open block behind a node.  Lowering
does not look at conditions, so these are the nodes that end as seen by one who
knows no literal (`Node.stops_eq_ends`).  In a neat tree no statement stands
behind one that stops, and it stays neat when dead stores go (`SweptTo.neat`).
-/

namespace Shading

open List

variable {node swept : Node} {lbl : Label} {tbl : SymbolTable}

namespace Node

/-- All arms up to the `else` stop, and there is one. -/
def armsStop : List (Node × Bool) → Bool
  | [] => false
  | (arm, stops) :: rest => stops && (arm.form.isElse || armsStop rest)

/-- Whether nothing is open behind a loop.  One that tests first is always left
by its test. -/
def loopStops (kind : LoopKind) (hasCondition bodyStops : Bool) (exits : LoopExits) : Bool :=
  !exits.breaks && (!hasCondition || !kind.isPretest && bodyStops && !exits.continues)

/-- Whether nothing is open behind a form, given this of its children. -/
def formStops (form : Form (Node × Bool)) : Bool :=
  match form with
  | .block stmts => stmts.any Prod.snd
  | .branch arms => armsStop arms
  | .arm _ body => body.2
  | .loop kind _ cond? _ body => loopStops kind cond?.isSome body.2 body.1.exits
  | .breakLoop | .continueLoop | .returnValue _ => true
  | _ => false

/-- Nothing is open behind the node. -/
def stops (node : Node) : Bool := node.fold fun _ => formStops

/-- Nothing is open behind a branch with these arms. -/
def stopsArms : List Node → Bool
  | [] => false
  | arm :: rest => arm.stops && (arm.form.isElse || stopsArms rest)

lemma stops_mk (lbl : Label) (form : Form Node) : (mk lbl form).stops = match form with
    | .block stmts => stmts.any stops
    | .branch arms => stopsArms arms
    | .arm _ body => body.stops
    | .loop kind _ cond? _ body => loopStops kind cond?.isSome body.stops body.exits
    | .breakLoop | .continueLoop | .returnValue _ => true
    | _ => false := by
  have harms : ∀ arms : List Node, armsStop (arms.map fun kid => (kid, kid.fold fun _ => formStops)) =
      stopsArms arms := by
    intro arms
    induction arms with
    | nil => rfl
    | cons arm rest ih =>
      rw [map_cons, armsStop, ih]
      rfl
  rw [stops, fold_mk]
  cases form with
  | block stmts =>
    change ((stmts.map _).any _) = _
    rw [any_map]
    rfl
  | branch arms => exact harms arms
  | loop kind init? cond? step? body => cases cond? <;> rfl
  | _ => rfl

lemma literalCondition?_seenBy_nil (node : Node) : (node.seenBy []).literalCondition? = none := by
  obtain ⟨lbl, form⟩ := node
  rw [seenBy_mk, decide_eq_false not_mem_nil]
  exact literalCondition?_seenForm _

lemma all_seenBy_nil (cond? : Option Node) :
    (cond?.map (seenBy [])).all (fun cond => cond.literalCondition? = some true) = !cond?.isSome := by
  cases cond? with
  | none => rfl
  | some cond => simp [literalCondition?_seenBy_nil]

/-- Whether nothing is open behind a node does not depend on its literals. -/
lemma stops_eq_ends (node : Node) : node.stops = (node.seenBy []).ends := by
  induction node with
  | mk lbl form ih =>
    rw [stops_mk]
    cases form with
    | block stmts =>
      rw [seenBy_of_immediate? rfl, ends_mk]
      rw [Bool.eq_iff_iff]
      simp only [Form.map, any_map, any_eq_true, Function.comp_apply]
      exact exists_congr fun statement => and_congr_right fun hm => by rw [ih statement hm]
    | branch arms =>
      have harms : ∀ arm ∈ arms, arm.stops = (arm.seenBy []).ends := ih
      rw [seenBy_of_immediate? rfl, ends_mk]
      change stopsArms arms = endsArms (arms.map (seenBy []))
      clear ih
      induction arms with
      | nil => rfl
      | cons arm rest hrest =>
        have hdef : (arm.seenBy []).isDefault = arm.form.isElse := by
          obtain ⟨lbl, form⟩ := arm
          cases form with
          | arm cond? body =>
            rw [seenBy_of_immediate? rfl]
            refine (all_seenBy_nil cond?).trans ?_
            cases cond? <;> rfl
          | immediate val => rfl
          | _ => rfl
        rw [stopsArms, harms arm (.head _), hrest (forall_mem_cons.mp harms).2, map_cons, endsArms, hdef]
    | arm cond? body =>
      rw [seenBy_of_immediate? rfl, ends_mk]
      exact ih body (by simp [Form.children])
    | loop kind init? cond? step? body =>
      rw [seenBy_of_immediate? rfl, ends_mk]
      simp only [Form.map, all_seenBy_nil, exits_seenBy, ← ih body (by simp [Form.children]), loopStops,
        LoopKind.neverEnds]
      cases kind <;> cases cond?.isSome <;> cases body.stops <;> cases body.exits.breaks <;> rfl
    | immediate val => rfl
    | _ => rfl

/-! ## Neat trees -/

/-- No statement of a block stands behind one that stops. -/
def NeatRule (node : Node) : Prop :=
  match node.form with
  | .block stmts => ∀ statement ∈ stmts.dropLast, statement.stops = false
  | _ => True

/-- No statement below the node stands behind one that stops. -/
def Neat (node : Node) : Prop := node.Everywhere NeatRule

lemma neat_mk {form : Form Node} : (mk lbl form).Neat ↔ NeatRule (mk lbl form) ∧
    ∀ kid ∈ form.children, kid.Neat :=
  everywhere_mk

lemma Neat.child {kid : Node} (h : node.Neat) (hc : kid ∈ node.form.children) : kid.Neat := Everywhere.child h hc

lemma neat_iff (node : Node) : node.Neat ↔ (node.seenBy []).Tidy := by
  induction node with
  | mk lbl form ih =>
    have hseen := children_seenBy [] (mk lbl form)
    rw [seenBy_mk] at hseen ⊢
    rw [neat_mk, tidy_mk, ← form_mk lbl (seenForm _ _), hseen, forall_mem_map]
    refine and_congr ?_ (forall₂_congr ih)
    cases form with
    | block stmts =>
      rw [TidyRule]
      change _ ↔ ∀ statement ∈ (stmts.map _).dropLast, _
      rw [← map_dropLast, forall_mem_map]
      exact forall₂_congr fun statement _ => by rw [stops_eq_ends]
    | immediate val => exact Iff.rfl
    | _ => exact Iff.rfl

lemma Tidy.neat (h : node.Tidy) : node.Neat := (neat_iff node).mpr h.seenBy

end Node

/-- A tree stays neat when dead stores go. -/
lemma SweptTo.neat (h : SweptTo tbl node swept) (ht : node.Typed tbl) (hn : node.Neat) : swept.Neat := by
  have hseen := h.seen ht (fun _ _ _ _ _ => not_mem_nil : node.StoresUnknown [])
  exact (Node.neat_iff swept).mpr (hseen.2.tidy ((Node.neat_iff node).mp hn))

end Shading
