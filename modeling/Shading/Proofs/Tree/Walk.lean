import Shading.Proofs.Tree.Flow

/-!
# Walks through a tree

A walk takes the statements of a tree in the order in which they run and leaves
the outcome of each condition open: a list of choices says what the conditions
that are not literal give, one choice for each time one is tested.  Whatever
the choices, a walk ends as the jumps and ends of the tree allow
(`Node.allows_of_walk`).
-/

namespace Shading

open Meaning

/-- The ways through a node as a statement and as an arm of a branch.  The
state is the number of choices taken; values that are returned are left out. -/
structure Walker where
  walk : RunnerOf Nat
  arm? : Option (Option (EvaluatorOf Nat) × RunnerOf Nat)

/-- What a condition gives: its own value if it is literal, else the next
choice. -/
def Node.chosen (choices : Nat → Bool) (cond : Node) : EvaluatorOf Nat := fun taken =>
  match cond.literalCondition? with
  | some truth => (.bool truth, taken)
  | none => (.bool (choices taken), taken + 1)

namespace Walker

variable (choices : Nat → Bool)

def statement : Form (Node × Walker) → RunnerOf Nat
  | .block stmts => Meaning.sequence (stmts.map (·.2.walk))
  | .branch arms => choose (arms.filterMap (·.2.arm?))
  | .loop kind init? cond? _ body =>
    Meaning.sequence [Meaning.sequence (init?.toList.map (·.2.walk)),
      loop kind (cond?.map (·.1.chosen choices)) none body.2.walk]
  | .breakLoop => fun _ taken => some (.breaks, taken)
  | .continueLoop => fun _ taken => some (.continues, taken)
  | .returnValue _ => fun _ taken => some (.returns none, taken)
  | _ => fun _ taken => some (.normal, taken)

def ofForm (form : Form (Node × Walker)) : Walker where
  walk := statement choices form
  arm? := match form with
    | .arm cond? body => some (cond?.map (·.1.chosen choices), body.2.walk)
    | _ => none

end Walker

namespace Node

variable (choices : Nat → Bool)

def walker (node : Node) : Walker := node.fold fun _ => Walker.ofForm choices

/-- The way through a node, with as many rounds of loops as are given. -/
def walk (node : Node) : RunnerOf Nat := (node.walker choices).walk

lemma walker_mk (lbl : Label) (form : Form Node) :
    (mk lbl form).walker choices = .ofForm choices (form.map fun kid => (kid, kid.walker choices)) := by
  rw [walker, fold_mk]
  rfl

variable {choices} {lbl : Label} {node : Node}

lemma walk_block (stmts : List Node) :
    (mk lbl (.block stmts)).walk choices = Meaning.sequence (stmts.map (·.walk choices)) := by
  rw [walk, walker_mk]
  change Meaning.sequence ((stmts.map _).map _) = _
  rw [List.map_map]
  rfl

lemma armWalker?_eq_armOf? : (fun arm : Node => (arm.walker choices).arm?) = armOf? (chosen choices)
    (walk choices) := by
  funext ⟨lbl, form⟩
  rw [walker_mk]
  cases form with
  | arm cond? body => cases cond? <;> rfl
  | _ => rfl

lemma walk_branch (arms : List Node) : (mk lbl (.branch arms)).walk choices =
    choose (arms.filterMap (armOf? (chosen choices) (walk choices))) := by
  rw [walk, walker_mk, ← armWalker?_eq_armOf?]
  change choose ((arms.map _).filterMap _) = _
  rw [List.filterMap_map]
  rfl

lemma walk_loop (kind : LoopKind) (init? cond? step? : Option Node) (body : Node) :
    (mk lbl (.loop kind init? cond? step? body)).walk choices =
      Meaning.sequence [Meaning.sequence (init?.toList.map (walk choices)),
        loop kind (cond?.map (chosen choices)) none (body.walk choices)] := by
  rw [walk, walker_mk]
  cases init? <;> cases cond? <;> rfl

lemma walk_of_plain (h : node.form.isDeclare = true ∨ node.form.isExpression = true)
    (k taken : Nat) : node.walk choices k taken = some (.normal, taken) := by
  obtain ⟨lbl, form⟩ := node
  rw [walk, walker_mk]
  rcases h with h | h <;> cases form <;> first | rfl | cases h

lemma sequence_walk_of_isDeclare {nodes : List Node} (h : ∀ node ∈ nodes, node.form.isDeclare = true)
    (k taken : Nat) : Meaning.sequence (nodes.map (walk choices)) k taken = some (.normal, taken) := by
  induction nodes with
  | nil => rfl
  | cons first rest ih =>
    rw [List.map_cons, Meaning.sequence, walk_of_plain (.inl (h first (.head _)))]
    exact ih (List.forall_mem_cons.mp h).2

/-- The start of a loop holds no choice. -/
lemma walk_of_isInit (h : node.IsInit) (k taken : Nat) :
    node.walk choices k taken = some (.normal, taken) := by
  rcases isInit_iff.mp h with ⟨stmts, hform, hall⟩ | hplain
  · obtain ⟨lbl, form⟩ := node
    obtain rfl : form = .block stmts := hform
    rw [walk_block]
    exact sequence_walk_of_isDeclare hall k taken
  · exact walk_of_plain hplain k taken

lemma walk_loop_of_init {kind : LoopKind} {init? cond? step? : Option Node} {body : Node}
    (hi : ∀ init ∈ init?, init.IsInit) (k taken : Nat) :
    (mk lbl (.loop kind init? cond? step? body)).walk choices k taken =
      loop kind (cond?.map (chosen choices)) none (body.walk choices) k taken := by
  have hinit : Meaning.sequence (init?.toList.map (walk choices)) k taken = some (.normal, taken) := by
    cases init? with
    | none => rfl
    | some init =>
      rw [Option.toList_some, List.map_singleton, Meaning.sequence, walk_of_isInit (hi init rfl)]
      rfl
  rw [walk_loop, Meaning.sequence, hinit, sequence_singleton]

lemma chosen_of_literalCondition? {cond : Node} {truth : Bool} {taken : Nat}
    (h : cond.literalCondition? = some truth) : cond.chosen choices taken = (.bool truth, taken) := by
  rw [chosen, h]

/-- A walk ends as the jumps and ends of the tree allow. -/
lemma allows_of_walk {tbl : SymbolTable} (ht : node.Typed tbl)
    (harm : node.form.isArm = false) : ∀ {k taken last completion},
      node.walk choices k taken = some (completion, last) → node.Allows completion := by
  refine Typed.parts_induction (motive := fun node => ∀ {k taken last completion},
    node.walk choices k taken = some (completion, last) → node.Allows completion)
    (fun lbl form ht harm ih => ?_) node ht harm
  intro k taken last completion h
  have hrule := (typed_mk.mp ht).1.2
  cases form with
  | program functions | function sym params body => exact hrule.elim
  | arm cond? body => cases harm
  | block stmts =>
    rw [walk_block] at h
    exact allows_block (allows_of_sequence (fun node hm => ih node hm) h)
  | branch arms =>
    rw [walk_branch] at h
    exact allows_of_choose hrule.1 chosen_of_literalCondition?
      (fun arm ha body hb => ih body (List.mem_flatMap.mpr ⟨arm, ha, hb⟩)) h
  | loop kind init? cond? step? body =>
    rw [walk_loop_of_init hrule.1] at h
    exact allows_of_loop chosen_of_literalCondition? (ih body (by simp [parts, Form.children])) h
  | breakLoop | continueLoop =>
    cases h
    rw [Allows, exits_mk]
  | returnValue value? =>
    cases h
    trivial
  | declare sym ini? =>
    cases h
    exact ends_of_isDeclare rfl
  | _ =>
    rw [walk_of_plain (.inr rfl)] at h
    cases h
    exact ends_of_isExpression rfl

end Node

end Shading
