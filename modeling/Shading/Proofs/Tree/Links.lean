import Mathlib.Data.List.Flatten
import Mathlib.Data.List.Nodup
import Shading.Proofs.Tree.Alike
import Shading.Proofs.Tree.Uses

/-!
# Numbers and links of a tree

In a linked tree every node belongs to the node it is reached from, and in a
tree whose numbers differ every node is reached once.  `Numbered low high old
new` says that a stage which takes the numbers from `low` up to `high` makes
nodes of others without breaking either: all it keeps is linked, and what it
adds has new numbers.  Stages are put together with `Numbered.trans` and
`Numbered.append`.  A stage that puts what it makes in the place of what it was
made of, with no new spans, is a `Rebuilt`.
-/

namespace Shading

open Node List

variable {high low mid : Nat} {a b c d : List Node} {form : Form Node}

/-! ## Numbers -/

/-- Numbers after a stage are old ones or were taken by it, each at most
once. -/
structure Grows (low high : Nat) (old new : List NodeId) : Prop where
  le : low ≤ high
  mem : ∀ id ∈ new, id ∈ old ∨ low ≤ id.index ∧ id.index < high
  nodup : old.Nodup → (∀ id ∈ old, id.index < low) → new.Nodup

namespace Grows

variable {a b c d : List NodeId}

lemma refl (low : Nat) (a : List NodeId) : Grows low low a a :=
  ⟨Nat.le_refl low, fun _ h => .inl h, fun h _ => h⟩

lemma lt_high (h : Grows low high a b) (ha : ∀ id ∈ a, id.index < low) : ∀ id ∈ b, id.index < high := by
  intro id hm
  rcases h.mem id hm with hold | hnew
  · exact Nat.lt_of_lt_of_le (ha id hold) h.le
  · exact hnew.2

lemma trans (hab : Grows low mid a b) (hbc : Grows mid high b c) : Grows low high a c := by
  refine ⟨Nat.le_trans hab.le hbc.le, fun id hm => ?_, fun hn hlow => ?_⟩
  · have hle := hab.le
    have hle' := hbc.le
    rcases hbc.mem id hm with hb | hnew
    · exact (hab.mem id hb).imp_right fun h => ⟨h.1, by omega⟩
    · exact .inr ⟨by omega, hnew.2⟩
  · exact hbc.nodup (hab.nodup hn hlow) (hab.lt_high hlow)

/-- Two stages one after the other, on different parts. -/
lemma append (hab : Grows low mid a b) (hcd : Grows mid high c d) : Grows low high (a ++ c) (b ++ d) := by
  have hle := hab.le
  have hle' := hcd.le
  refine ⟨Nat.le_trans hle hle', fun id hm => ?_, fun hn hlow => ?_⟩
  · rcases mem_append.mp hm with hm | hm
    · exact (hab.mem id hm).imp (mem_append_left _) fun h => ⟨h.1, by omega⟩
    · exact (hcd.mem id hm).imp (mem_append_right _) fun h => ⟨by omega, h.2⟩
  · obtain ⟨ha, hc, hdisj⟩ := nodup_append'.mp hn
    have hla : ∀ id ∈ a, id.index < low := fun id hm => hlow id (mem_append_left _ hm)
    have hlc : ∀ id ∈ c, id.index < low := fun id hm => hlow id (mem_append_right _ hm)
    refine nodup_append'.mpr ⟨hab.nodup ha hla, hcd.nodup hc fun id hm => ?_, fun id hb hd => ?_⟩
    · have := hlc id hm
      omega
    · rcases hab.mem id hb with hold | hnew <;> rcases hcd.mem id hd with hold' | hnew'
      · exact hdisj hold hold'
      · have := hla id hold
        omega
      · have := hlc id hold'
        omega
      · omega

lemma sublist (h : Grows low high a b) (hs : c.Sublist b) : Grows low high a c :=
  ⟨h.le, fun id hm => h.mem id (hs.subset hm), fun hn hlow => (h.nodup hn hlow).sublist hs⟩

lemma cons (h : Grows low high a b) (id : NodeId) : Grows low high (id :: a) (id :: b) :=
  (refl low [id]).append h

lemma fresh (low : Nat) (a : List NodeId) : Grows low (low + 1) a (⟨low⟩ :: a) := by
  refine ⟨by omega, fun id hm => ?_, fun hn hlow => nodup_cons.mpr ⟨fun hm => ?_, hn⟩⟩
  · rcases mem_cons.mp hm with rfl | hm
    · exact .inr ⟨Nat.le_refl low, Nat.lt_succ_self low⟩
    · exact .inl hm
  · exact Nat.lt_irrefl low (hlow _ hm)

end Grows

/-! ## Links -/

namespace Node

/-- Numbers of the node and of all below it. -/
def ids (node : Node) : List NodeId := node.preorder.map id

def idsAll (nodes : List Node) : List NodeId := nodes.flatMap ids

lemma ids_mk (lbl : Label) (form : Form Node) : (mk lbl form).ids = lbl.id :: idsAll form.children := by
  rw [ids, preorder_mk, map_cons, map_flatMap]
  rfl

@[simp] lemma idsAll_nil : idsAll [] = [] := rfl

@[simp] lemma idsAll_cons (node : Node) (rest : List Node) : idsAll (node :: rest) = node.ids ++ idsAll rest := rfl

@[simp] lemma idsAll_append (a b : List Node) : idsAll (a ++ b) = idsAll a ++ idsAll b := flatMap_append

@[simp] lemma ids_withParent (node : Node) (parent? : Option NodeId) :
    (node.withParent parent?).ids = node.ids := by
  obtain ⟨lbl, form⟩ := node
  rw [withParent, ids_mk, ids_mk]
  rfl

@[simp] lemma idsAll_adopt (id : NodeId) (form : Form Node) :
    idsAll (adopt id form).children = idsAll form.children := by
  rw [adopt, Form.children_map, idsAll, flatMap_map, idsAll]
  exact flatMap_congr fun kid _ => ids_withParent kid _

def LinkRule (node : Node) : Prop := ∀ child ∈ node.form.children, child.parent? = some node.id

/-- Every node below belongs to the node it is reached from. -/
def Linked (node : Node) : Prop := node.Everywhere LinkRule

lemma linked_mk {lbl : Label} : (mk lbl form).Linked ↔
    (∀ kid ∈ form.children, kid.parent? = some lbl.id) ∧ ∀ kid ∈ form.children, kid.Linked :=
  everywhere_mk

lemma Linked.child {node inner : Node} (h : node.Linked) (hi : inner ∈ node.form.children) : inner.Linked :=
  Everywhere.child h hi

/-- What a node belongs to says nothing about the nodes below it. -/
lemma Linked.withParent {node : Node} (h : node.Linked) (parent? : Option NodeId) :
    (node.withParent parent?).Linked := by
  obtain ⟨lbl, form⟩ := node
  obtain ⟨hparent, hkids⟩ := linked_mk.mp h
  exact linked_mk.mpr ⟨hparent, hkids⟩

lemma parent?_adopt {id : NodeId} {kid : Node} (h : kid ∈ (adopt id form).children) :
    kid.parent? = some id := by
  obtain ⟨original, -, rfl⟩ := Form.mem_children_map.mp h
  rfl

lemma linked_adopt {id : NodeId} (h : ∀ kid ∈ form.children, kid.Linked) :
    ∀ kid ∈ (adopt id form).children, kid.Linked := by
  intro kid hc
  obtain ⟨original, ho, rfl⟩ := Form.mem_children_map.mp hc
  exact (h original ho).withParent _

/-- Children that already belong to a node are adopted as they are. -/
lemma adopt_of_parent? {id : NodeId} (h : ∀ kid ∈ form.children, kid.parent? = some id) :
    adopt id form = form := by
  conv_rhs => rw [← Form.map_id form]
  refine Form.map_congr fun kid hc => ?_
  obtain ⟨⟨childId, parent?, type, span⟩, inner⟩ := kid
  obtain rfl : parent? = some id := h _ hc
  rfl

end Node

/-! ## Stages -/

/-- A stage that takes the numbers from `low` up to `high` and makes some nodes
of others. -/
structure Numbered (low high : Nat) (old new : List Node) : Prop where
  grows : Grows low high (idsAll old) (idsAll new)
  linked : (∀ node ∈ old, node.Linked) → ∀ node ∈ new, node.Linked

namespace Numbered

lemma refl (low : Nat) (a : List Node) : Numbered low low a a := ⟨.refl low _, fun h => h⟩

lemma trans (hab : Numbered low mid a b) (hbc : Numbered mid high b c) : Numbered low high a c :=
  ⟨hab.grows.trans hbc.grows, fun h => hbc.linked (hab.linked h)⟩

lemma append (hab : Numbered low mid a b) (hcd : Numbered mid high c d) : Numbered low high (a ++ c) (b ++ d) := by
  refine ⟨?_, fun h node hm => ?_⟩
  · rw [idsAll_append, idsAll_append]
    exact hab.grows.append hcd.grows
  · rcases mem_append.mp hm with hm | hm
    · exact hab.linked (fun node hm => h node (mem_append_left _ hm)) node hm
    · exact hcd.linked (fun node hm => h node (mem_append_right _ hm)) node hm

/-- Other nodes stay as they are. -/
lemma frame (hab : Numbered low high a b) (pre after : List Node) :
    Numbered low high (pre ++ a ++ after) (pre ++ b ++ after) :=
  ((refl low pre).append hab).append (refl high after)

lemma sublist (hab : Numbered low high a b) (hs : c.Sublist b) : Numbered low high a c :=
  ⟨hab.grows.sublist (hs.flatMap _), fun h node hm => hab.linked h node (hs.subset hm)⟩

lemma create (low : Nat) (form : Form Node) (type : ValueType) (span : Span) :
    Numbered low (low + 1) form.children [create ⟨low⟩ form type span] := by
  refine ⟨?_, fun hl node hm => ?_⟩
  · simp only [Node.idsAll_cons, Node.idsAll_nil, append_nil, Node.create, Node.ids_mk, Node.idsAll_adopt]
    exact .fresh low _
  · obtain rfl := mem_singleton.mp hm
    exact Node.linked_mk.mpr ⟨fun kid => Node.parent?_adopt, Node.linked_adopt hl⟩

lemma inside {old : List Node} {node : Node} (h : Numbered low high old [node]) :
    Numbered low high old node.form.children := by
  obtain ⟨lbl, form⟩ := node
  refine ⟨h.grows.sublist ?_, fun hl kid hc => (h.linked hl _ (.head _)).child hc⟩
  simp only [idsAll_cons, idsAll_nil, append_nil, ids_mk]
  exact sublist_cons_self ..

end Numbered

/-! ## Places -/

/-- A stage makes some nodes of others and puts them in their places: they
belong to the same node.  All spans are those of the others. -/
structure Rebuilt (low high : Nat) (old new : List Node) : Prop extends Numbered low high old new where
  parent : ∀ node ∈ new, ∃ original ∈ old, node.parent? = original.parent?
  spanned : ∀ ⦃allowed : Span → Prop⦄, (∀ node ∈ old, node.Spanned allowed) → ∀ node ∈ new,
    node.Spanned allowed

namespace Rebuilt

variable {lbl other : Label} {inner : Form Node}

lemma refl (low : Nat) (a : List Node) : Rebuilt low low a a :=
  ⟨.refl low a, fun node hm => ⟨node, hm, rfl⟩, fun _ h => h⟩

lemma trans (hab : Rebuilt low mid a b) (hbc : Rebuilt mid high b c) : Rebuilt low high a c := by
  refine ⟨hab.toNumbered.trans hbc.toNumbered, fun node hm => ?_, fun _ h => hbc.spanned (hab.spanned h)⟩
  obtain ⟨between, hb, heq⟩ := hbc.parent node hm
  obtain ⟨original, ha, heq'⟩ := hab.parent between hb
  exact ⟨original, ha, heq.trans heq'⟩

lemma append (hab : Rebuilt low mid a b) (hcd : Rebuilt mid high c d) : Rebuilt low high (a ++ c) (b ++ d) := by
  refine ⟨hab.toNumbered.append hcd.toNumbered, fun node hm => ?_, fun ok h node hm => ?_⟩
  · rcases mem_append.mp hm with hm | hm
    · obtain ⟨original, ho, heq⟩ := hab.parent node hm
      exact ⟨original, mem_append_left _ ho, heq⟩
    · obtain ⟨original, ho, heq⟩ := hcd.parent node hm
      exact ⟨original, mem_append_right _ ho, heq⟩
  · rcases mem_append.mp hm with hm | hm
    · exact hab.spanned (fun node hm => h node (mem_append_left _ hm)) node hm
    · exact hcd.spanned (fun node hm => h node (mem_append_right _ hm)) node hm

lemma frame (hab : Rebuilt low high a b) (pre after : List Node) :
    Rebuilt low high (pre ++ a ++ after) (pre ++ b ++ after) :=
  ((refl low pre).append hab).append (refl high after)

lemma sublist (hab : Rebuilt low high a b) (hs : c.Sublist b) : Rebuilt low high a c :=
  ⟨hab.toNumbered.sublist hs, fun node hm => hab.parent node (hs.subset hm), fun _ h node hm =>
    hab.spanned h node (hs.subset hm)⟩

section

variable (hid : other.id = lbl.id) (hp : other.parent? = lbl.parent?)
include hid hp

/-- A node whose children were rebuilt. -/
lemma node (hspan : other.span = lbl.span)
    (h : Rebuilt low high form.children inner.children) : Rebuilt low high [.mk lbl form] [.mk other inner] := by
  refine ⟨⟨?_, fun hl node hm => ?_⟩, fun node hm => ?_, fun ok hs node hm => ?_⟩
  · simp only [idsAll_cons, idsAll_nil, append_nil, ids_mk, hid]
    exact h.grows.cons lbl.id
  · obtain rfl := mem_singleton.mp hm
    obtain ⟨hparent, hkids⟩ := linked_mk.mp (hl _ (.head _))
    refine linked_mk.mpr ⟨fun kid hc => ?_, h.linked hkids⟩
    obtain ⟨original, ho, heq⟩ := h.parent kid hc
    rw [heq, hparent original ho, hid]
  · obtain rfl := mem_singleton.mp hm
    exact ⟨_, mem_singleton_self _, hp⟩
  · obtain rfl := mem_singleton.mp hm
    obtain ⟨hlabel, hkids⟩ := spanned_mk.mp (hs _ (.head _))
    exact spanned_mk.mpr ⟨hspan ▸ hlabel, h.spanned hkids⟩

/-- A node that adopts children made of those it had. -/
lemma adopted (h : Numbered low high form.children inner.children)
    (hs : ∀ ⦃ok⦄, (Node.mk lbl form).Spanned ok → (Node.mk other inner).Spanned ok) :
    Rebuilt low high [.mk lbl form] [.mk other (Node.adopt other.id inner)] := by
  refine ⟨⟨?_, fun hl node hm => ?_⟩, fun node hm => ?_, fun ok hold node hm => ?_⟩
  · simp only [idsAll_cons, idsAll_nil, append_nil, ids_mk, idsAll_adopt, hid]
    exact h.grows.cons lbl.id
  · obtain rfl := mem_singleton.mp hm
    have hkids := (linked_mk.mp (hl _ (.head _))).2
    exact linked_mk.mpr ⟨fun kid => parent?_adopt, linked_adopt (h.linked hkids)⟩
  · obtain rfl := mem_singleton.mp hm
    exact ⟨_, mem_singleton_self _, hp⟩
  · obtain rfl := mem_singleton.mp hm
    have hnew := hs (hold _ (.head _))
    exact .adopted (fun _ hc => hnew.child hc) hnew.span _

/-- A node that adopts some of the children it had. -/
lemma adopts_some (hspan : other.span = lbl.span) (h : inner.children.Sublist form.children) :
    Rebuilt low low [.mk lbl form] [.mk other (Node.adopt other.id inner)] := by
  refine adopted hid hp ((Numbered.refl low _).sublist h) fun _ hs => ?_
  exact Node.spanned_mk.mpr ⟨hspan ▸ hs.span, fun _ hc => hs.child (h.subset hc)⟩

lemma leaf (hspan : other.span = lbl.span)
    (hc : inner.children = []) : Rebuilt low low [.mk lbl form] [.mk other inner] :=
  node hid hp hspan ((refl low form.children).sublist (by rw [hc]; exact nil_sublist _))

end

lemma toImmediate (node : Node) (val : Value) : Rebuilt low low [node] [node.toImmediate val] := by
  obtain ⟨lbl, form⟩ := node
  exact leaf rfl rfl rfl rfl

/-- The contents of a node move to a new one below it. -/
lemma wrapInCast (node : Node) (low : Nat) (type : ValueType) : Rebuilt low (low + 1) [node]
    [node.wrapInCast ⟨low⟩ type] := by
  obtain ⟨lbl, form⟩ := node
  refine adopted rfl rfl (Numbered.create low form lbl.type lbl.span) fun _ hs => ?_
  exact Node.spanned_mk.mpr ⟨hs.span, fun _ hm => mem_singleton.mp hm ▸ .create (fun _ hc => hs.child hc) hs.span⟩

/-- The contents of a node below another one take its place. -/
lemma replaceBy {tgt src : Node} (h : Numbered low high tgt.form.children [src])
    (hs : ∀ ⦃ok⦄, tgt.Spanned ok → src.Spanned ok) : Rebuilt low high [tgt] [tgt.replaceBy src] := by
  obtain ⟨lbl, form⟩ := tgt
  exact adopted rfl rfl h.inside fun _ hspanned => (hs hspanned).relabel rfl

/-- A child takes the place of the node. -/
lemma replaceByChild {tgt src : Node} (h : [src].Sublist tgt.form.children) :
    Rebuilt low low [tgt] [tgt.replaceBy src] :=
  replaceBy ((Numbered.refl low _).sublist h) fun _ hs => hs.child (h.subset (.head _))

end Rebuilt

end Shading
