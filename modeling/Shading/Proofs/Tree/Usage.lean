import Shading.Proofs.Tree.Copy
import Shading.Proofs.Tree.Uses

/-!
# Uses that are read off links

A forest reads off the links of its nodes what their values are used for.  Where
a tree is linked and reaches no node twice, this is what the places of the nodes
say: the forest finds the uses of the tree below a node (`Forest.uses_eq`).  All
else is asked of the tree itself.
-/

namespace Shading

open Node List

namespace Forest

variable {forest : Forest} {id : NodeId} {node : Node} {lbl : Label} {form : Form Node}

@[simp] lemma id_nodeUpTo (forest : Forest) (depth : Nat) (id : NodeId) : (forest.nodeUpTo depth id).id = id := by
  cases depth <;> rfl

/-- What is read below a node is what is stored there. -/
lemma holds_nodeUpTo {depth : Nat} (h : forest.isTreeUpTo depth id = true) :
    forest.Holds (forest.nodeUpTo depth id) := by
  induction depth generalizing id with
  | zero => cases h
  | succ depth ih =>
    obtain ⟨hlt, hkids⟩ := isTreeUpTo_succ.mp h
    refine everywhere_mk.mpr ⟨?_, fun kid hk => ?_⟩
    · have hentry : forest.get? id = some (forest.entry id) := by
        rw [Forest.entry, get?, Table.get?, Array.getElem?_eq_getElem hlt, Option.getD_some]
      have hform : ((forest.entry id).form.map (forest.nodeUpTo depth)).map Node.id = (forest.entry id).form := by
        rw [Form.map_map]
        exact (Form.map_congr fun kid _ => id_nodeUpTo ..).trans (Form.map_id _)
      rw [Node.entry, form_mk, hform]
      exact hentry
    · obtain ⟨child, hchild, rfl⟩ := Form.mem_children_map.mp hk
      exact ih (hkids child hchild)

lemma parentForm?_child (h : forest.Holds (.mk lbl form)) (hlinked : (Node.mk lbl form).Linked) {kid : Node}
    (hk : kid ∈ form.children) : forest.parentForm? kid.id = some (form.map Node.id) := by
  obtain ⟨hself, hkids⟩ := everywhere_mk.mp h
  have hkid : forest.get? kid.id = some kid.entry := (hkids kid hk).here
  have hlink : kid.entry.parent? = some lbl.id := (linked_mk.mp hlinked).1 kid hk
  rw [parentForm?, Forest.entry, hkid, Option.getD_some, hlink, Option.map_some, Forest.entry,
    show forest.get? lbl.id = _ from hself]
  rfl

/-- The uses of a linked tree are those at the places of its nodes. -/
lemma fold_formUses (h : forest.Holds node) (hlinked : node.Linked) (hids : node.ids.Nodup) :
    node.fold forest.formUses = node.uses (forest.usage node.id) := by
  induction node with
  | mk lbl form ih =>
    rw [ids_mk, nodup_cons] at hids
    obtain ⟨heach, hapart⟩ := nodup_flatMap.mp hids.2
    have hkid (kid : Node) (hk : kid ∈ form.children) :
        kid.fold forest.formUses = kid.uses (forest.usage kid.id) :=
      ih kid hk (h.child hk) (hlinked.child hk) (heach kid hk)
    have hparent (kid : Node) (hk : kid ∈ form.children) := parentForm?_child h hlinked hk
    have hread (hr : ∀ kid ∈ form.children, forest.usage kid.id = .read) :
        (form.map fun kid => (kid, kid.fold forest.formUses)).children.flatMap Prod.snd =
          (form.map fun kid => (kid, kid.uses)).children.flatMap fun kid => kid.2 .read := by
      rw [Form.children_map, Form.children_map, flatMap_map, flatMap_map]
      exact flatMap_congr fun kid hk => (hkid kid hk).trans (by rw [hr kid hk])
    rw [fold_mk, uses_mk]
    cases form with
    | var sym | immediate val | breakLoop | continueLoop => rfl
    | declare sym init? =>
      refine congrArg (· ++ _) ?_
      cases init? with
      | none => rfl
      | some init => exact hread fun kid hk => by rw [usage, hparent kid hk]; rfl
    | unary op opd =>
      refine (append_nil _).trans ((hkid opd (.head _)).trans ?_)
      rw [usage, hparent opd (.head _)]
      rfl
    | binary op lhs rhs =>
      cases op with
      | assign =>
        have hne : lhs.id ≠ rhs.id := by
          intro heq
          have hdisjoint := (pairwise_cons.mp hapart).1 rhs (.head _)
          exact hdisjoint (id_mem_ids lhs) (heq ▸ id_mem_ids rhs)
        refine congrArg₂ (· ++ ·) ((hkid lhs (.head _)).trans ?_) ((append_nil _).trans
          ((hkid rhs (.tail _ (.head _))).trans ?_))
        · rw [usage, hparent lhs (.head _)]
          exact congrArg lhs.uses (if_pos rfl)
        · rw [usage, hparent rhs (.tail _ (.head _))]
          exact congrArg rhs.uses (if_neg hne)
      | _ => exact hread fun kid hk => by rw [usage, hparent kid hk]; rfl
    | _ => exact hread fun kid hk => by rw [usage, hparent kid hk]; rfl

/-- Below a node whose tree is linked and reaches no node twice, the forest
finds the uses of the tree. -/
theorem uses_eq (h : forest.node? id = some node) (hlinked : node.Linked) (hids : node.ids.Nodup) :
    forest.uses id = node.uses (forest.usage id) := by
  obtain ⟨htree, ⟨⟩⟩ := Option.ite_none_right_eq_some.mp h
  have hfold := fold_formUses (holds_nodeUpTo htree) hlinked hids
  rw [uses, h, Option.elim_some, hfold, id_nodeUpTo]

end Forest

end Shading
