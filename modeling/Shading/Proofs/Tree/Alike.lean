import Mathlib.Data.List.Basic
import Shading.Tree.Usage

/-!
# Trees up to labels

Passes move nodes around and number them anew.  `Node.erase` forgets all of a
label but its type, and two trees are alike if nothing else tells them apart.
`Node.Everywhere` says that a property holds of a node and of all below it.
-/

namespace Shading

open List

variable {lbl label' : Label} {form : Form Node}

namespace Form

variable {α β : Type}

@[simp] lemma isExpression_map (f : α → β) (form : Form α) : (form.map f).isExpression = form.isExpression := by
  cases form <;> rfl

@[simp] lemma immediate?_map (f : α → β) (form : Form α) : (form.map f).immediate? = form.immediate? := by
  cases form <;> rfl

@[simp] lemma literalCondition?_map (f : α → β) (form : Form α) :
    (form.map f).literalCondition? = form.literalCondition? := by
  rw [literalCondition?, literalCondition?, immediate?_map]

@[simp] lemma isPureOperation_map (tbl : SymbolTable) (f : α → β) (form : Form α) :
    (form.map f).isPureOperation tbl = form.isPureOperation tbl := by
  cases form <;> rfl

lemma mem_children_map {f : α → β} {form : Form α} {b : β} : b ∈ (form.map f).children ↔
    ∃ a ∈ form.children, f a = b := by
  rw [children_map, mem_map]

end Form

/-- Only the type of a label. -/
def Label.bare (label : Label) : Label := ⟨⟨0⟩, none, label.type, .empty⟩

namespace Node

/-- The tree with all labels bare. -/
def erase (node : Node) : Node := node.fold fun label form => .mk label.bare (form.map Prod.snd)

lemma erase_mk (lbl : Label) (form : Form Node) : (mk lbl form).erase = .mk lbl.bare (form.map erase) := by
  rw [erase, fold_mk, Form.map_map]
  rfl

@[simp] lemma type_mk (lbl : Label) (form : Form Node) : (mk lbl form).type = lbl.type := rfl

@[simp] lemma type_erase (node : Node) : node.erase.type = node.type := by
  cases node
  rw [erase_mk]
  rfl

@[simp] lemma form_erase (node : Node) : node.erase.form = node.form.map erase := by
  cases node
  rw [erase_mk]
  rfl

@[simp] lemma immediate?_erase (node : Node) : node.erase.immediate? = node.immediate? := by
  rw [immediate?, form_erase, Form.immediate?_map, immediate?]

@[simp] lemma literalCondition?_erase (node : Node) : node.erase.literalCondition? = node.literalCondition? := by
  rw [literalCondition?, form_erase, Form.literalCondition?_map, literalCondition?]

/-- Equal up to labels, types apart. -/
def Alike (a b : Node) : Prop := a.erase = b.erase

namespace Alike

variable {a b c : Node}

lemma symm (h : a.Alike b) : b.Alike a := Eq.symm h

lemma trans (hab : a.Alike b) (hbc : b.Alike c) : a.Alike c := Eq.trans hab hbc

lemma type_eq (h : a.Alike b) : a.type = b.type := by
  rw [← type_erase a, ← type_erase b, h]

lemma immediate?_eq (h : a.Alike b) : a.immediate? = b.immediate? := by
  rw [← immediate?_erase a, h, immediate?_erase]

lemma form_map_eq (h : a.Alike b) : a.form.map erase = b.form.map erase := by
  rw [← form_erase a, ← form_erase b, h]

/-- Nodes are alike if their types and their children are. -/
lemma mk {form' : Form Node} (htype : lbl.type = label'.type)
    (hform : form.map erase = form'.map erase) : (Node.mk lbl form).Alike (Node.mk label' form') := by
  rw [Alike, erase_mk, erase_mk, hform, Label.bare, Label.bare, htype]

lemma withParent (node : Node) (parent? : Option NodeId) : (node.withParent parent?).Alike node := by
  cases node
  exact mk rfl rfl

lemma relabel (h : lbl.type = label'.type) (form : Form Node) : (Node.mk lbl form).Alike (Node.mk label' form) :=
  mk h rfl

end Alike

@[simp] lemma erase_withParent (node : Node) (parent? : Option NodeId) :
    (node.withParent parent?).erase = node.erase :=
  Alike.withParent node parent?

@[simp] lemma erase_adopt (id : NodeId) (form : Form Node) : (adopt id form).map erase = form.map erase := by
  rw [adopt, Form.map_map]
  exact Form.map_congr fun kid _ => erase_withParent kid _

namespace Alike

lemma create (id : NodeId) (form : Form Node) (type : ValueType) (span : Span)
    (h : lbl.type = type) : (Node.mk lbl form).Alike (Node.create id form type span) :=
  mk h (erase_adopt id form).symm

lemma withForm (node : Node) (form : Form Node) : (Node.mk node.label form).Alike (node.withForm form) :=
  mk rfl (erase_adopt node.id form).symm

lemma replaceBy (tgt src : Node) : src.Alike (tgt.replaceBy src) := by
  obtain ⟨lbl, form⟩ := src
  exact mk rfl (erase_adopt tgt.id form).symm

lemma toImmediate (node : Node) (val : Value) (h : lbl.type = val.type) :
    (Node.mk lbl (.immediate val)).Alike (node.toImmediate val) :=
  mk h rfl

end Alike

/-! ## Trees up to numbers -/

end Node

/-- The label without its number and link. -/
def Label.unplaced (label : Label) : Label := ⟨⟨0⟩, none, label.type, label.span⟩

lemma Label.type_eq (h : lbl.unplaced = label'.unplaced) : lbl.type = label'.type := (Label.mk.inj h).2.2.1

namespace Node

variable {coarse : Bool}

/-- The tree without its numbers and links. -/
def unplaced (node : Node) : Node := node.fold fun label form => .mk ⟨⟨0⟩, none, label.type, label.span⟩
    (form.map Prod.snd)

lemma unplaced_mk (lbl : Label) (form : Form Node) :
    (mk lbl form).unplaced = .mk ⟨⟨0⟩, none, lbl.type, lbl.span⟩ (form.map unplaced) := by
  rw [unplaced, fold_mk, Form.map_map]
  rfl

lemma erase_unplaced (node : Node) : node.unplaced.erase = node.erase := by
  induction node with
  | mk lbl form ih =>
    rw [unplaced_mk, erase_mk, erase_mk, Form.map_map, Form.map_congr ih]
    rfl

/-- The tree with bare labels, or only without numbers and links. -/
def blur : Bool → Node → Node
  | true => erase
  | false => unplaced

lemma immediate?_blur (node : Node) : (node.blur coarse).immediate? = node.immediate? := by
  cases coarse with
  | true => exact immediate?_erase node
  | false => rw [← immediate?_erase, blur, erase_unplaced, immediate?_erase]

/-- Equal up to what is blurred. -/
def Near (coarse : Bool) (a b : Node) : Prop := a.blur coarse = b.blur coarse

namespace Near

variable {a b c : Node}

lemma alike (h : a.Near coarse b) : a.Alike b := by
  cases coarse with
  | true => exact h
  | false =>
    have herase := congrArg erase h
    rwa [blur, erase_unplaced, erase_unplaced] at herase

lemma of_alike (h : a.Alike b) (hc : coarse = true) : a.Near coarse b := by
  subst hc
  exact h

lemma trans (hab : a.Near coarse b) (hbc : b.Near coarse c) : a.Near coarse c := Eq.trans hab hbc

/-- Nodes are near if their labels and their children are. -/
lemma mk {form' : Form Node} (hl : lbl.unplaced = label'.unplaced)
    (hform : form.map (blur coarse) = form'.map (blur coarse)) :
    (Node.mk lbl form).Near coarse (.mk label' form') := by
  cases coarse with
  | true => exact Alike.mk (Label.type_eq hl) hform
  | false => exact (unplaced_mk ..).trans ((congrArg₂ Node.mk hl hform).trans (unplaced_mk ..).symm)

lemma relabel (hl : lbl.unplaced = label'.unplaced) (form : Form Node) :
    (Node.mk lbl form).Near coarse (.mk label' form) :=
  mk hl rfl

lemma adopt (id : NodeId) (form : Form Node) :
    (Node.adopt id form).map (blur coarse) = form.map (blur coarse) := by
  rw [Node.adopt, Form.map_map]
  refine Form.map_congr fun kid _ => ?_
  obtain ⟨lbl, form⟩ := kid
  refine relabel ?_ form
  rfl

lemma wrapInCast (node : Node) (id : NodeId) (type : ValueType) :
    (Node.mk { node.label with type } (.unary .cast node)).Near coarse (node.wrapInCast id type) := by
  refine mk rfl ?_
  rw [adopt]
  obtain ⟨lbl, form⟩ := node
  exact congrArg (Form.unary .cast) (mk rfl (adopt id form).symm)

end Near

lemma Alike.wrapInCast (node : Node) (id : NodeId) (type : ValueType) :
    (Node.mk { node.label with type } (.unary .cast node)).Alike (node.wrapInCast id type) :=
  (Near.wrapInCast node id type : Near true _ _).alike

/-- A result that does not depend on labels is the same for the bare tree. -/
lemma fold_erase {β : Type} (f : Label → Form (Node × β) → β)
    (hf : ∀ lbl form, f lbl.bare (form.map fun kid => (kid.1.erase, kid.2)) = f lbl form)
    (node : Node) : node.erase.fold f = node.fold f := by
  induction node with
  | mk lbl form ih =>
    rw [erase_mk, fold_mk, fold_mk, ← hf lbl, Form.map_map, Form.map_map]
    congr 1
    refine Form.map_congr fun kid hc => ?_
    rw [ih kid hc]

/-! ## Properties of all nodes -/

lemma preorder_mk (lbl : Label) (form : Form Node) :
    (mk lbl form).preorder = .mk lbl form :: form.children.flatMap preorder := by
  rw [preorder, fold_mk, Form.map_map, Form.map_id, Form.children_map, flatMap_map]
  rfl

/-- A property holds of the node and of all below it. -/
def Everywhere (p : Node → Prop) (node : Node) : Prop := ∀ inner ∈ node.preorder, p inner

variable {p : Node → Prop}

lemma everywhere_mk : (mk lbl form).Everywhere p ↔ p (.mk lbl form) ∧ ∀ kid ∈ form.children,
    kid.Everywhere p := by
  simp only [Everywhere, preorder_mk, mem_cons, mem_flatMap]
  constructor
  · intro h
    exact ⟨h _ (.inl rfl), fun kid hc inner hi => h inner (.inr ⟨kid, hc, hi⟩)⟩
  · rintro ⟨hself, hkids⟩ inner (rfl | ⟨kid, hc, hi⟩)
    · exact hself
    · exact hkids kid hc inner hi

namespace Everywhere

variable {node : Node}

lemma here (h : node.Everywhere p) : p node := by
  cases node
  exact (everywhere_mk.mp h).1

lemma child (h : node.Everywhere p) {inner : Node} (hi : inner ∈ node.form.children) : inner.Everywhere p := by
  cases node
  exact (everywhere_mk.mp h).2 inner hi

end Everywhere

lemma preorder_erase (node : Node) : node.erase.preorder = node.preorder.map erase := by
  induction node with
  | mk lbl form ih =>
    rw [erase_mk, preorder_mk, preorder_mk, map_cons, erase_mk, Form.children_map, flatMap_map, map_flatMap]
    congr 1
    exact flatMap_congr ih

/-- A property that does not look at labels holds everywhere in trees that are
alike. -/
lemma Everywhere.of_alike {a b : Node} (h : a.Everywhere p) (hab : a.Alike b)
    (hp : ∀ node : Node, p node.erase ↔ p node) : b.Everywhere p := by
  intro inner hi
  have hmem : inner.erase ∈ a.erase.preorder := by
    rw [hab, preorder_erase]
    exact mem_map_of_mem hi
  rw [preorder_erase] at hmem
  obtain ⟨other, ho, heq⟩ := mem_map.mp hmem
  rw [← hp inner, ← heq, hp other]
  exact h other ho

/-! ## Uses and effects -/

lemma isPure_mk (tbl : SymbolTable) (lbl : Label) (form : Form Node) : (mk lbl form).isPure tbl =
      (form.isPureOperation tbl && form.children.all (·.isPure tbl)) := by
  rw [isPure, fold_mk, Form.isPureOperation_map, Form.children_map, all_map]
  rfl

end Node

end Shading
