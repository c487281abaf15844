import Shading.Proofs.Tree.Typing
import Shading.Simplify.DeadStore

/-!
# Symbols used below a node

A node writes what is written below it (`Node.mem_assigned_of_evaluated`), the symbol
it declares and the target of its assignment.  It names what its children
name and the symbol of its own (`Node.names_mk`); `Node.mentions` tells variables
from declarations.
-/

namespace Shading

open Form
open List hiding map

variable {kid node : Node}

/-! ## Parts of forms -/

namespace Form

variable {α β : Type}

/-- Children that are written and not evaluated. -/
def targets : Form α → List α
  | .binary .assign target _ => [target]
  | .unary op operand => if op.isStep then [operand] else []
  | _ => []

/-- Children that are evaluated or run. -/
def evaluated : Form α → List α
  | .binary .assign _ value => [value]
  | .unary op operand => if op.isStep then [] else [operand]
  | form => form.children

lemma evaluated_map (f : α → β) (form : Form α) : (form.map f).evaluated = form.evaluated.map f := by
  have hkids := children_map f form
  cases form with
  | binary op lhs rhs => cases op <;> rfl
  | unary op opd => cases h : op.isStep <;> simp [map, evaluated, h]
  | _ => exact hkids

lemma targets_map (f : α → β) (form : Form α) : (form.map f).targets = form.targets.map f := by
  cases form with
  | binary op lhs rhs => cases op <;> rfl
  | unary op opd => cases h : op.isStep <;> simp [map, targets, h]
  | _ => rfl

lemma mem_children_of_evaluated {form : Form α} {kid : α} (h : kid ∈ form.evaluated) : kid ∈ form.children := by
  cases form with
  | binary op lhs rhs => cases op <;> first | exact .tail _ h | exact h
  | unary op opd =>
    rw [evaluated] at h
    split at h
    · cases h
    · exact h
  | _ => exact h

lemma mem_children_of_targets {form : Form α} {kid : α} (h : kid ∈ form.targets) : kid ∈ form.children := by
  cases form with
  | binary op lhs rhs =>
    cases op <;> cases h
    · exact .head _
    · rename_i h
      cases h
  | unary op opd =>
    rw [targets] at h
    split at h
    · exact h
    · cases h
  | _ => cases h

end Form

/-! ## Uses -/

/-- The symbol that a form names. -/
def Form.named {α : Type} : Form α → List SymbolId
  | .var sym | .declare sym _ => [sym]
  | _ => []

namespace Node

variable {lbl : Label} {form : Form Node} {usage : Usage} {sym : SymbolId}

lemma uses_mk (lbl : Label) (form : Form Node) (usage : Usage) :
    (mk lbl form).uses usage = formUses lbl (form.map fun kid => (kid, kid.uses)) usage := by
  rw [uses, fold_mk]
  rfl

lemma mem_assigned : sym ∈ node.assigned usage ↔ ∃ use ∈ node.uses usage, use.usage.writes = true ∧
    use.symbol = sym := by
  simp only [assigned, assignedSymbols, mem_eraseDups, mem_map, mem_filter, and_assoc]

lemma uses_subset_of_evaluated (hc : kid ∈ form.evaluated) : ∀ use ∈ kid.uses .read,
    use ∈ (mk lbl form).uses usage := by
  intro use hu
  rw [uses_mk]
  cases form with
  | unary op opd =>
    rw [evaluated] at hc
    split at hc
    · cases hc
    · rename_i hstep
      obtain rfl := mem_singleton.mp hc
      rw [map, formUses, if_neg hstep]
      exact hu
  | binary op lhs rhs =>
    have hkids : kid ∈ [lhs, rhs] := mem_children_of_evaluated hc
    by_cases hop : op = .assign
    · subst hop
      obtain rfl := mem_singleton.mp hc
      exact mem_append_right _ hu
    · have hmap : formUses lbl ((binary op lhs rhs).map fun kid => (kid, kid.uses)) usage =
          lhs.uses .read ++ (rhs.uses .read ++ []) := by
        cases op <;> first | rfl | exact absurd rfl hop
      rw [hmap]
      rcases mem_pair.mp hkids with rfl | rfl
      · exact mem_append_left _ hu
      · exact mem_append_right _ (mem_append_left _ hu)
  | declare sym init? =>
    refine mem_append_left _ (mem_flatMap.mpr ⟨(kid, kid.uses), ?_, hu⟩)
    exact Option.mem_toList.mpr (Option.mem_map_of_mem _ (Option.mem_toList.mp hc))
  | var sym => cases hc
  | _ => exact mem_flatMap.mpr ⟨(kid, kid.uses), mem_children_map.mpr ⟨kid, hc, rfl⟩, hu⟩

lemma mem_assigned_of_evaluated (hc : kid ∈ form.evaluated) (h : sym ∈ kid.assigned .read) :
    sym ∈ (mk lbl form).assigned .read := by
  obtain ⟨use, hu, hwrites⟩ := mem_assigned.mp h
  exact mem_assigned.mpr ⟨use, uses_subset_of_evaluated hc use hu, hwrites⟩

lemma mem_assigned_declare (lbl : Label) (sym : SymbolId) (init? : Option Node) (usage : Usage) :
    sym ∈ (mk lbl (.declare sym init?)).assigned usage := by
  rw [mem_assigned, uses_mk]
  exact ⟨⟨sym, .write, lbl.span⟩, mem_append_right _ (.head _), rfl, rfl⟩

lemma mem_assigned_of_var (h : node.form = .var sym) (hu : usage.writes = true) : sym ∈ node.assigned usage := by
  obtain ⟨lbl, form⟩ := node
  obtain rfl : form = .var sym := h
  rw [mem_assigned, uses_mk]
  exact ⟨⟨sym, usage, lbl.span⟩, mem_singleton_self _, hu, rfl⟩

lemma mem_assigned_assign {tgt val : Node} (h : tgt.form = .var sym) :
    sym ∈ (mk lbl (.binary .assign tgt val)).assigned usage := by
  obtain ⟨use, hu, hwrites⟩ := mem_assigned.mp (mem_assigned_of_var h rfl : sym ∈ tgt.assigned .write)
  rw [mem_assigned, uses_mk]
  exact ⟨use, mem_append_left _ hu, hwrites⟩

lemma mem_assigned_step {op : UnaryOp} {opd : Node} (hs : op.isStep = true) (h : opd.form = .var sym) :
    sym ∈ (mk lbl (.unary op opd)).assigned usage := by
  obtain ⟨use, hu, hwrites⟩ := mem_assigned.mp (mem_assigned_of_var h rfl : sym ∈ opd.assigned .readWrite)
  rw [mem_assigned, uses_mk]
  refine ⟨use, ?_, hwrites⟩
  rw [map, formUses, if_pos hs]
  exact hu

/-! ## Names -/

/-- Symbols that variables and declarations below a node name, once for each. -/
def names (node : Node) : List SymbolId := (node.uses .read).map (·.symbol)

lemma map_symbol_formUses (lbl : Label) (form : Form Node) (usage : Usage)
    (h : ∀ kid ∈ form.children, ∀ usage, (kid.uses usage).map (·.symbol) = kid.names) :
    (formUses lbl (form.map fun kid => (kid, kid.uses)) usage).map (·.symbol) =
      form.children.flatMap names ++ form.named := by
  have hkids (usage : Usage) : ((form.map fun kid => (kid, kid.uses)).children.flatMap fun kid =>
    kid.2 usage).map (·.symbol) = form.children.flatMap names := by
    rw [children_map, flatMap_map, map_flatMap]
    exact flatMap_congr fun kid hc => h kid hc usage
  cases form with
  | var sym => rfl
  | declare sym init? =>
    rw [map, formUses, map_append]
    exact congrArg (· ++ [sym]) (hkids .read)
  | unary op opd =>
    rw [Form.map, formUses, h opd (.head _)]
    simp [Form.children, Form.named]
  | binary op lhs rhs =>
    cases op with
    | assign =>
      rw [Form.map, formUses, map_append, h lhs (.head _), h rhs (.tail _ (.head _))]
      simp [Form.children, Form.named]
    | _ => exact (hkids .read).trans (append_nil _).symm
  | _ => exact (hkids .read).trans (append_nil _).symm

/-- How a node is used does not change what is named below it. -/
lemma map_symbol_uses (node : Node) (usage : Usage) : (node.uses usage).map (·.symbol) = node.names := by
  induction node generalizing usage with
  | mk lbl form ih =>
    rw [names, uses_mk, uses_mk, map_symbol_formUses lbl form usage fun kid hc usage => ih kid hc usage,
      map_symbol_formUses lbl form .read fun kid hc usage => ih kid hc usage]

lemma names_mk (lbl : Label) (form : Form Node) : (mk lbl form).names = form.children.flatMap names ++
    form.named := by
  rw [names, uses_mk, map_symbol_formUses lbl form .read fun kid _ usage => map_symbol_uses kid usage]

lemma names_of_named (h : form.named = []) : (mk lbl form).names = form.children.flatMap names := by
  rw [names_mk, h, append_nil]

lemma names_sublist_of_child (hc : kid ∈ form.children) : kid.names.Sublist (mk lbl form).names := by
  obtain ⟨pre, after, hsplit⟩ := append_of_mem hc
  rw [names_mk, hsplit, flatMap_append, flatMap_cons]
  exact (sublist_append_of_sublist_right (sublist_append_left ..)).trans (sublist_append_left ..)

/-- A symbol that is named only once is not named behind the node that names it. -/
lemma not_mem_names_of_count {first : Node} {rest : List Node}
    (hcount : ((first :: rest).flatMap names).count sym ≤ 1)
    (hm : sym ∈ first.names) : ∀ node ∈ rest, sym ∉ node.names := by
  intro node hn hnode
  have hfirst := count_pos_iff.mpr hm
  have hrest : 0 < (rest.flatMap names).count sym := count_pos_iff.mpr (mem_flatMap.mpr ⟨node, hn, hnode⟩)
  rw [flatMap_cons, count_append] at hcount
  omega

/-- A symbol that only its declaration mentions is named at most once. -/
lemma count_names_le (h : isUnmentioned (node.uses .read) sym = true) : node.names.count sym ≤ 1 := by
  have hcount (uses : List Use) : (uses.map (·.symbol)).count sym ≤ countReads uses sym +
      countWrites uses sym := by
    induction uses with
    | nil => exact Nat.zero_le _
    | cons use rest ih =>
      have huse : (if use.symbol == sym then 1 else 0) ≤ (if decide (use.symbol = sym) && use.usage.reads
        then 1 else 0) +
          if decide (use.symbol = sym) && use.usage.writes then 1 else 0 := by
        by_cases hs : use.symbol = sym <;> cases hu : use.usage <;> simp [hs, Usage.reads, Usage.writes]
      rw [countReads, countWrites] at ih ⊢
      rw [map_cons, count_cons, countP_cons, countP_cons]
      omega
  have hbound := hcount (node.uses .read)
  simp only [isUnmentioned, Bool.and_eq_true, decide_eq_true_eq] at h
  rw [h.1, h.2] at hbound
  exact hbound

end Node

/-! ## Mentions -/

/-- A place where a symbol is named. -/
inductive Mention where
  | variable (sym : SymbolId)
  | declaration (sym : SymbolId)
deriving DecidableEq

def Form.mentions {α : Type} : Form α → List Mention
  | .var sym => [.variable sym]
  | .declare sym _ => [.declaration sym]
  | _ => []

lemma Form.mentions_map {α β : Type} (f : α → β) (form : Form α) : (form.map f).mentions = form.mentions := by
  cases form <;> rfl

namespace Node

/-- Variables and declarations below a node. -/
def mentions (node : Node) : List Mention := node.preorder.flatMap (·.form.mentions)

lemma mentions_mk (lbl : Label) (form : Form Node) :
    (mk lbl form).mentions = form.mentions ++ form.children.flatMap mentions := by
  rw [mentions, preorder_mk, flatMap_cons, flatMap_assoc]
  rfl

lemma Alike.mentions_eq {a b : Node} (h : a.Alike b) : a.mentions = b.mentions := by
  have herase (node : Node) : node.erase.mentions = node.mentions := by
    rw [mentions, preorder_erase, flatMap_map, mentions]
    exact flatMap_congr fun node _ => by rw [form_erase, mentions_map]
  rw [← herase a, h, herase]

lemma count_names (node : Node) (sym : SymbolId) :
    node.names.count sym = node.mentions.count (.variable sym) + node.mentions.count (.declaration sym) := by
  induction node with
  | mk lbl form ih =>
    have hkids : (form.children.flatMap names).count sym = (form.children.flatMap mentions).count (.variable sym) +
        (form.children.flatMap mentions).count (.declaration sym) := by
      generalize form.children = children at ih
      induction children with
      | nil => rfl
      | cons kid rest ihRest =>
        have hkid := ih kid (.head _)
        have hrest := ihRest (forall_mem_cons.mp ih).2
        simp only [flatMap_cons, count_append]
        omega
    have hown : form.named.count sym = form.mentions.count (.variable sym) + form.mentions.count
        (.declaration sym) := by
      cases form <;> simp [Form.named, Form.mentions, count_cons]
    rw [names_mk, mentions_mk, count_append, count_append, count_append]
    omega

/-! ## Spans

A tree is `Spanned` if the spans of all its nodes are in some set.  Changes of
a tree take spans from the nodes that they move.
-/

variable {ok : Span → Prop} {lbl : Label} {form : Form Node}

/-- The spans of all nodes are allowed. -/
def Spanned (allowed : Span → Prop) (node : Node) : Prop := node.Everywhere fun inner => allowed inner.span

lemma spanned_mk : (mk lbl form).Spanned ok ↔ ok lbl.span ∧ ∀ kid ∈ form.children, kid.Spanned ok :=
  everywhere_mk

lemma spanned_true (node : Node) : node.Spanned fun _ => True := fun _ _ => trivial

namespace Spanned

section

variable (h : node.Spanned ok)
include h

lemma span : ok node.span := Everywhere.here h

lemma child {inner : Node} (hi : inner ∈ node.form.children) : inner.Spanned ok :=
  Everywhere.child h hi

/-- Spans do not depend on links, numbers and types. -/
lemma relabel (hspan : lbl.span = node.span) : (mk lbl node.form).Spanned ok :=
  spanned_mk.mpr ⟨hspan ▸ h.span, fun _ hi => h.child hi⟩

lemma withParent (parent? : Option NodeId) : (node.withParent parent?).Spanned ok :=
  h.relabel rfl

end

section

variable (hform : ∀ kid ∈ form.children, kid.Spanned ok)
include hform

lemma adopted (hspan : ok lbl.span) (id : NodeId) : (mk lbl (adopt id form)).Spanned ok := by
  refine spanned_mk.mpr ⟨hspan, fun kid hm => ?_⟩
  obtain ⟨inner, hi, rfl⟩ := Form.mem_children_map.mp hm
  exact (hform inner hi).withParent _

lemma create {id : NodeId} {type : ValueType} {span : Span} (hspan : ok span) :
    (Node.create id form type span).Spanned ok :=
  adopted hform hspan id

lemma withForm (h : ok node.span) : (node.withForm form).Spanned ok := adopted hform h _

end

lemma formUses {inside : Form (Node × (Usage → List Use))} (hspan : ok lbl.span)
    (hin : ∀ kid ∈ inside.children, ∀ usage, ∀ use ∈ kid.2 usage, ok use.span) (usage : Usage) :
    ∀ use ∈ Node.formUses lbl inside usage, ok use.span := by
  unfold Node.formUses
  intro use hm
  split at hm
  · rw [List.mem_singleton.mp hm]
    exact hspan
  · rcases List.mem_append.mp hm with hm | hm
    · obtain ⟨kid, hc, hm⟩ := List.mem_flatMap.mp hm
      exact hin kid hc _ use hm
    · rw [List.mem_singleton.mp hm]
      exact hspan
  · rcases List.mem_append.mp hm with hm | hm
    · exact hin _ (.head _) _ use hm
    · exact hin _ (.tail _ (.head _)) _ use hm
  · exact hin _ (.head _) _ use hm
  · obtain ⟨kid, hc, hm⟩ := List.mem_flatMap.mp hm
    exact hin kid hc _ use hm

/-- Uses stand where their nodes do. -/
lemma uses (h : node.Spanned ok) (usage : Usage) : ∀ use ∈ node.uses usage, ok use.span := by
  induction node generalizing usage with
  | mk lbl form ih =>
    rw [uses_mk]
    refine formUses h.span (fun kid hm => ?_) usage
    obtain ⟨inner, hi, rfl⟩ := Form.mem_children_map.mp hm
    exact ih inner hi (h.child hi)

end Spanned

end Node

end Shading
