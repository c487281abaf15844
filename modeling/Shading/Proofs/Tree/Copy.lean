import Mathlib.Data.List.Perm.Subperm
import Mathlib.Data.List.Range
import Mathlib.Logic.Relation
import Shading.Proofs.Tree.Links
import Shading.Tree.Forest

/-!
# Copies of trees

A forest holds a tree if every node of the tree is stored under its number
(`Forest.Holds`).  Below a node from which no cycle is reached paths are no
longer than the number of nodes (`Forest.Acyclic.isTreeUpTo`), so the tree there
can be read and copied.  `Forest.Copied` pairs trees with their copies, which are made of new
nodes only and equal them but for numbers and links, while all that was there
before stays as it was.  Copies are made children first: `Copied.append` adds
the copy of one more child, and `Copied.parent` that of the node above them.
-/

namespace Shading

open Node List Relation

/-! ## Trees -/

namespace Node

/-- The entry that stores a node. -/
def entry (node : Node) : Entry := ⟨node.form.map Node.id, node.parent?, node.type, node.span⟩

lemma unplaced_create (id : NodeId) (form : Form Node) (type : ValueType) (span : Span) :
    (create id form type span).unplaced = .mk ⟨⟨0⟩, none, type, span⟩ (form.map unplaced) := by
  rw [create, unplaced_mk]
  exact congrArg _ (Near.adopt id form : (adopt id form).map (blur false) = _)

lemma id_mem_ids (node : Node) : node.id ∈ node.ids := by
  obtain ⟨lbl, form⟩ := node
  rw [ids_mk]
  exact .head _

lemma id_mem_idsAll {nodes : List Node} {node : Node} (h : node ∈ nodes) : node.id ∈ idsAll nodes :=
  mem_flatMap.mpr ⟨node, h, id_mem_ids node⟩

/-- If all numbers differ, what is below a node has none of the roots'. -/
lemma id_ne_of_below {nodes : List Node} {inner root : Node} {id : NodeId} (hn : (idsAll nodes).Nodup)
    (hi : inner ∈ nodes) (hid : id ∈ idsAll inner.form.children) (hr : root ∈ nodes) : root.id ≠ id := by
  rintro rfl
  obtain ⟨heach, hapart⟩ := nodup_flatMap.mp hn
  obtain ⟨lbl, form⟩ := inner
  have hself := heach _ hi
  rw [ids_mk] at hself
  by_cases heq : root = .mk lbl form
  · subst heq
    exact (nodup_cons.mp hself).1 hid
  · have : Std.Symm (Function.onFun Disjoint ids) := ⟨fun _ _ h _ hb ha => h ha hb⟩
    refine hapart.forall hr hi heq (id_mem_ids root) ?_
    rw [ids_mk]
    exact .tail _ hid

end Node

/-- The children of a form are handled in their order. -/
lemma Form.exists_mapM {α β γ σ : Type} {f : α → StateT σ Option β} {g : γ → α} {h : γ → β}
    {p : List γ → σ → Prop} {form : Form α}
    (hf : ∀ a ∈ form.children, ∀ done s, p done s → ∃ c t, g c = a ∧ (f a).run s = some (h c, t) ∧
      p (done ++ [c]) t) {s : σ}
    (hs : p [] s) : ∃ new t, Form.map g new = form ∧ (form.mapM f).run s = some (new.map h, t) ∧
    p new.children t := by
  have hlist (kids : List α) (hk : ∀ a ∈ kids, a ∈ form.children) (done : List γ) (s : σ) (hs : p done s) :
      ∃ new t, new.map g = kids ∧ (kids.mapM f).run s = some (new.map h, t) ∧ p (done ++ new) t := by
    induction kids generalizing done s with
    | nil => exact ⟨[], s, rfl, rfl, by rwa [append_nil]⟩
    | cons a rest ih =>
      obtain ⟨c, t, rfl, hrun, hp⟩ := hf a (hk a (.head _)) done s hs
      obtain ⟨new, u, rfl, hruns, hq⟩ := ih (forall_mem_cons.mp hk).2 _ t hp
      exact ⟨c :: new, u, rfl, by simp [-mapM_map, hrun, hruns], by rwa [append_assoc] at hq⟩
  have hoption (kid? : Option α) (hk : ∀ a ∈ kid?, a ∈ form.children) (done : List γ) (s : σ) (hs : p done s) :
      ∃ (new? : Option γ) (t : σ), new?.map g = kid? ∧ (kid?.mapM f).run s = some (new?.map h, t) ∧
      p (done ++ new?.toList) t := by
    cases kid? with
    | none => exact ⟨none, s, rfl, rfl, by rwa [Option.toList_none, append_nil]⟩
    | some a =>
      obtain ⟨c, t, rfl, hrun, hp⟩ := hf a (hk a rfl) done s hs
      exact ⟨some c, t, rfl, by simp [hrun], hp⟩
  cases form with
  | program kids =>
    obtain ⟨new, t, hg, hrun, hp⟩ := hlist kids (fun _ h => h) [] s hs
    exact ⟨.program new, t, congrArg Form.program hg, by simp [Form.mapM, hrun, Form.map], hp⟩
  | block kids =>
    obtain ⟨new, t, hg, hrun, hp⟩ := hlist kids (fun _ h => h) [] s hs
    exact ⟨.block new, t, congrArg Form.block hg, by simp [Form.mapM, hrun, Form.map], hp⟩
  | branch kids =>
    obtain ⟨new, t, hg, hrun, hp⟩ := hlist kids (fun _ h => h) [] s hs
    exact ⟨.branch new, t, congrArg Form.branch hg, by simp [Form.mapM, hrun, Form.map], hp⟩
  | call callee kids =>
    obtain ⟨new, t, hg, hrun, hp⟩ := hlist kids (fun _ h => h) [] s hs
    exact ⟨.call callee new, t, congrArg (Form.call callee) hg, by simp [Form.mapM, hrun, Form.map], hp⟩
  | breakLoop => exact ⟨.breakLoop, s, rfl, rfl, hs⟩
  | continueLoop => exact ⟨.continueLoop, s, rfl, rfl, hs⟩
  | var sym => exact ⟨.var sym, s, rfl, rfl, hs⟩
  | immediate val => exact ⟨.immediate val, s, rfl, rfl, hs⟩
  | function sym params body =>
    obtain ⟨c, t, rfl, hrun, hp⟩ := hf body (.head _) [] s hs
    exact ⟨.function sym params c, t, rfl, by simp [Form.mapM, hrun, Form.map], hp⟩
  | swizzle obj field =>
    obtain ⟨c, t, rfl, hrun, hp⟩ := hf obj (.head _) [] s hs
    exact ⟨.swizzle c field, t, rfl, by simp [Form.mapM, hrun, Form.map], hp⟩
  | unary op opd =>
    obtain ⟨c, t, rfl, hrun, hp⟩ := hf opd (.head _) [] s hs
    exact ⟨.unary op c, t, rfl, by simp [Form.mapM, hrun, Form.map], hp⟩
  | binary op lhs rhs =>
    obtain ⟨c, t, rfl, hrun, hp⟩ := hf lhs (.head _) [] s hs
    obtain ⟨d, u, rfl, hrun', hq⟩ := hf rhs (.tail _ (.head _)) [c] t hp
    exact ⟨.binary op c d, u, rfl, by simp [Form.mapM, hrun, hrun', Form.map], hq⟩
  | returnValue val? =>
    obtain ⟨c, t, rfl, hrun, hp⟩ := hoption val? (by simp [children]) [] s hs
    exact ⟨.returnValue c, t, rfl, by simp [Form.mapM, hrun, Form.map], hp⟩
  | declare sym ini? =>
    obtain ⟨c, t, rfl, hrun, hp⟩ := hoption ini? (by simp [children]) [] s hs
    exact ⟨.declare sym c, t, rfl, by simp [Form.mapM, hrun, Form.map], hp⟩
  | arm cond? body =>
    obtain ⟨c, t, rfl, hrun, hp⟩ := hoption cond? (by simp +contextual [children]) [] s hs
    obtain ⟨d, u, rfl, hrun', hq⟩ := hf body (by simp [children]) _ t hp
    exact ⟨.arm c d, u, rfl, by simp [Form.mapM, hrun, hrun', Form.map], hq⟩
  | loop kind init? cond? step? body =>
    obtain ⟨a, t, rfl, hinit, hp⟩ := hoption init? (by simp +contextual [children]) [] s hs
    obtain ⟨b, t, rfl, hcond, hp⟩ := hoption cond? (by simp +contextual [children]) _ t hp
    obtain ⟨c, t, rfl, hbody, hp⟩ := hf body (by simp [children]) _ t hp
    obtain ⟨d, t, rfl, hstep, hp⟩ := hoption step? (by simp +contextual [children]) _ t hp
    exact ⟨.loop kind a b d c, t, rfl, by simp [Form.mapM, hinit, hcond, hbody, hstep, Form.map], hp⟩

namespace Forest

variable {old mid new forest grown : Forest} {id node kid : NodeId} {depth : Nat} {tree : Node}
  {pairs : List (Node × Node)} {pair : Node × Node}

/-- Every node of the tree is stored under its number. -/
def Holds (forest : Forest) (tree : Node) : Prop := tree.Everywhere fun node => forest.get? node.id =
    some node.entry

lemma Holds.mono (h : forest.Holds tree) (hkept : ∀ node ∈ tree.ids, grown.get? node = forest.get? node) :
    grown.Holds tree := fun inner hi => (hkept _ (mem_map_of_mem hi)).trans (h inner hi)

/-! ## Paths -/

/-- A node names another one as its child. -/
def Child (forest : Forest) (id kid : NodeId) : Prop := kid ∈ (forest.entry id).form.children

/-- All nodes that are reached exist, and none is reached from itself. -/
structure Acyclic (forest : Forest) (id : NodeId) : Prop where
  stored : ∀ node, ReflTransGen forest.Child id node → node.index < forest.size
  irrefl : ∀ node, ReflTransGen forest.Child id node → ¬ TransGen forest.Child node node

lemma isTreeUpTo_succ : forest.isTreeUpTo (depth + 1) id = true ↔
    id.index < forest.size ∧ ∀ kid, forest.Child id kid → forest.isTreeUpTo depth kid = true := by
  rw [isTreeUpTo, Bool.and_eq_true, decide_eq_true_iff, all_eq_true]
  rfl

/-- No path without a cycle is longer than the number of nodes. -/
lemma Acyclic.isTreeUpTo (h : forest.Acyclic id) : forest.isTreeUpTo forest.size id = true := by
  -- The path that led here has distinct nodes, all of which lead on to this one.
  suffices ∀ depth (path : List NodeId) node, path.length + depth = forest.size → path.Nodup →
      (∀ seen ∈ path, ReflTransGen forest.Child id seen ∧ TransGen forest.Child seen node) →
      ReflTransGen forest.Child id node → forest.isTreeUpTo depth node = true from
    this _ [] id (Nat.zero_add _) nodup_nil (forall_mem_nil _) .refl
  intro depth
  induction depth with
  | zero =>
    intro path node hlen hn hpath hid
    have hnew : node ∉ path := fun hm => h.irrefl node hid (hpath node hm).2
    have hmap : ((node :: path).map NodeId.index).Nodup :=
      (nodup_cons.mpr ⟨hnew, hn⟩).map fun _ _ h => NodeId.mk.injEq .. ▸ h
    have hsub : (node :: path).map NodeId.index ⊆ range forest.size := by
      intro n hm
      obtain ⟨seen, hs, rfl⟩ := mem_map.mp hm
      rcases mem_cons.mp hs with rfl | hs
      · exact mem_range.mpr (h.stored _ hid)
      · exact mem_range.mpr (h.stored _ (hpath seen hs).1)
    have hle := (subperm_of_subset hmap hsub).length_le
    rw [length_map, length_range, length_cons] at hle
    omega
  | succ depth ih =>
    intro path node hlen hn hpath hid
    refine isTreeUpTo_succ.mpr ⟨h.stored _ hid, fun kid hk =>
      ih (node :: path) kid (by rw [length_cons]; omega) ?_ ?_ (hid.tail hk)⟩
    · exact nodup_cons.mpr ⟨fun hm => h.irrefl node hid (hpath node hm).2, hn⟩
    · refine forall_mem_cons.mpr ⟨⟨hid, .single hk⟩, fun seen hm => ?_⟩
      exact ⟨(hpath seen hm).1, (hpath seen hm).2.tail hk⟩

/-- A forest built from the leaves up has no cycle. -/
lemma Acyclic.of_lt (hid : id.index < forest.size) (h : ∀ node kid, forest.Child node kid →
    kid.index < node.index) : forest.Acyclic id := by
  have hlt : ∀ {node kid}, TransGen forest.Child node kid → kid.index < node.index := by
    intro node kid hk
    induction hk with
    | single hk => exact h _ _ hk
    | tail _ hk ih => exact Nat.lt_trans (h _ _ hk) ih
  refine ⟨fun node hr => ?_, fun node _ hk => Nat.lt_irrefl _ (hlt hk)⟩
  rcases reflTransGen_iff_eq_or_transGen.mp hr with rfl | hr
  · exact hid
  · exact Nat.lt_trans (hlt hr) hid

/-! ## Adding a node -/

lemma get?_modify (forest : Forest) (id node : NodeId) (f : Entry → Entry) :
    (forest.modify id f).get? node = (forest.get? node).map fun entry => if node = id then f entry else entry := by
  obtain ⟨n⟩ := node
  obtain ⟨k⟩ := id
  rw [get?, modify, Table.get?, Table.modify, Array.getElem?_modify]
  by_cases h : k = n
  · simp [h, get?, Table.get?]
  · simp [h, Ne.symm h, get?, Table.get?]

lemma size_adopt (forest : Forest) (id : NodeId) (kids : List NodeId) :
    (forest.adopt id kids).size = forest.size := by
  induction kids generalizing forest with
  | nil => rfl
  | cons first rest ih =>
    rw [adopt, foldl_cons, ← adopt, ih]
    exact Table.size_modify ..

lemma get?_adopt (forest : Forest) (id node : NodeId) (kids : List NodeId) : (forest.adopt id kids).get? node =
    (forest.get? node).map fun entry => if node ∈ kids then { entry with parent? := some id } else entry := by
  induction kids generalizing forest with
  | nil => simp [adopt]
  | cons first rest ih =>
    rw [adopt, foldl_cons, ← adopt, ih, get?_modify, Option.map_map]
    congr 1
    funext entry
    by_cases hfirst : node = first <;> by_cases hrest : node ∈ rest <;> simp [hfirst, hrest]

section

variable (forest : Forest) (form : Form NodeId) (type : ValueType) (span : Span)

lemma size_add : (forest.add form type span).2.size = forest.size + 1 := by
  rw [add, size_adopt]
  exact Table.size_push ..

/-- Only the children of the new node belong to it. -/
lemma get?_add_of_lt (hlt : node.index < forest.size) : (forest.add form type span).2.get? node =
    (forest.get? node).map fun entry => if node ∈ form.children
    then { entry with parent? := some ⟨forest.size⟩ } else entry := by
  rw [add, get?_adopt]
  congr 1
  exact Table.get?_push_other _ _ _ (Nat.ne_of_lt hlt)

lemma get?_add_self (hlt : ∀ kid ∈ form.children, kid.index < forest.size) :
    (forest.add form type span).2.get? ⟨forest.size⟩ = some ⟨form, none, type, span⟩ := by
  have hself : (⟨forest.size⟩ : NodeId) ∉ form.children := fun hm => Nat.lt_irrefl _ (hlt _ hm)
  rw [add, get?_adopt]
  have hpush : (forest.entries.push ⟨form, none, type, span⟩).get? forest.size = _ := Table.get?_push_same ..
  rw [get?, hpush, Option.map_some, if_neg hself]

end

/-! ## Copying -/

/-- What a forest stores is stored in another one as well. -/
def Stays (forest grown : Forest) : Prop := ∀ node : NodeId, node.index < forest.size →
    grown.get? node = forest.get? node

/-- Going from one forest to another made copies of trees that a forest
holds. -/
structure Copied (forest old : Forest) (pairs : List (Node × Node)) (new : Forest) : Prop where
  kept : old.Stays new
  numbered : Numbered old.size new.size [] (pairs.map Prod.snd)
  source : ∀ pair ∈ pairs, forest.Holds pair.1
  holds : ∀ pair ∈ pairs, new.Holds pair.2
  free : ∀ pair ∈ pairs, pair.2.parent? = none
  same : ∀ pair ∈ pairs, pair.2.unplaced = pair.1.unplaced

namespace Copied

lemma nil (forest old : Forest) : Copied forest old [] old :=
  ⟨fun _ _ => rfl, .refl _ _, forall_mem_nil _, forall_mem_nil _, forall_mem_nil _, forall_mem_nil _⟩

/-- Numbers of the copies. -/
lemma between (h : Copied forest old pairs new) (hm : node ∈ idsAll (pairs.map Prod.snd)) :
    old.size ≤ node.index ∧ node.index < new.size :=
  (h.numbered.grows.mem node hm).resolve_left not_mem_nil

lemma ids_nodup (h : Copied forest old pairs new) : (idsAll (pairs.map Prod.snd)).Nodup :=
  h.numbered.grows.nodup nodup_nil (forall_mem_nil _)

lemma stays (h : Copied forest old pairs new) (hs : grown.Stays old) (hle : grown.size ≤ old.size) :
    grown.Stays new :=
  fun node hlt => (h.kept node (Nat.lt_of_lt_of_le hlt hle)).trans (hs node hlt)

lemma append (h : Copied forest old pairs mid) (hlast : Copied forest mid [pair] new) :
    Copied forest old (pairs ++ [pair]) new where
  kept := hlast.stays h.kept h.numbered.grows.le
  numbered := by
    rw [map_append]
    exact h.numbered.append hlast.numbered
  source := forall_mem_append.mpr ⟨h.source, hlast.source⟩
  holds := by
    refine forall_mem_append.mpr ⟨fun pair hm => (h.holds pair hm).mono fun id hid =>
      hlast.kept id (h.between ?_).2, hlast.holds⟩
    exact mem_flatMap.mpr ⟨pair.2, mem_map_of_mem hm, hid⟩
  free := forall_mem_append.mpr ⟨h.free, hlast.free⟩
  same := forall_mem_append.mpr ⟨h.same, hlast.same⟩

lemma parent {made : Form (Node × Node)} {entry : Entry} (h : Copied forest old made.children new)
    (hentry : forest.get? id = some entry) (hform : made.map (·.1.id) = entry.form) :
    Copied forest old [(.mk ⟨id, entry.parent?, entry.type, entry.span⟩ (made.map Prod.fst),
      create ⟨new.size⟩ (made.map Prod.snd) entry.type entry.span)]
      (new.add (made.map (·.2.id)) entry.type entry.span).2 := by
  have hlt {id : NodeId} (hm : id ∈ idsAll (made.children.map Prod.snd)) : id.index < new.size := (h.between hm).2
  have hroot {kid : NodeId} (hk : kid ∈ (made.map (·.2.id)).children) : ∃ root ∈ made.children.map Prod.snd,
      root.id = kid := by
    obtain ⟨pair, hp, rfl⟩ := Form.mem_children_map.mp hk
    exact ⟨pair.2, mem_map_of_mem hp, rfl⟩
  refine ⟨fun node hnode => ?_, ?_, forall_mem_singleton.mpr ?_, forall_mem_singleton.mpr ?_,
    forall_mem_singleton.mpr rfl, forall_mem_singleton.mpr ?_⟩
  · have hnot : node ∉ (made.map (·.2.id)).children := by
      intro hm
      obtain ⟨root, hr, rfl⟩ := hroot hm
      exact Nat.not_le.mpr hnode (h.between (id_mem_idsAll hr)).1
    rw [get?_add_of_lt _ _ _ _ (Nat.lt_of_lt_of_le hnode h.numbered.grows.le), h.kept node hnode]
    simp [hnot]
  · rw [size_add]
    have hcreate := Numbered.create new.size (made.map Prod.snd) entry.type entry.span
    rw [Form.children_map] at hcreate
    exact h.numbered.trans hcreate
  · refine everywhere_mk.mpr ⟨?_, fun kid hk => ?_⟩
    · rw [Node.entry, form_mk, Form.map_map, hform]
      exact hentry
    · obtain ⟨pair, hp, rfl⟩ := Form.mem_children_map.mp hk
      exact h.source pair hp
  · refine everywhere_mk.mpr ⟨?_, fun kid hk => ?_⟩
    · have hadopt : (Node.adopt ⟨new.size⟩ (made.map Prod.snd)).map Node.id = made.map (·.2.id) := by
        rw [Node.adopt, Form.map_map, Form.map_map]
        rfl
      rw [Node.entry, form_mk, hadopt]
      refine get?_add_self _ _ _ _ fun kid hk => ?_
      obtain ⟨root, hr, rfl⟩ := hroot hk
      exact hlt (id_mem_idsAll hr)
    · rw [Node.adopt, Form.map_map] at hk
      obtain ⟨⟨tree, lbl, form⟩, hp, rfl⟩ := Form.mem_children_map.mp hk
      have hinner : new.Holds (.mk lbl form) := h.holds _ hp
      have hmem : .mk lbl form ∈ made.children.map Prod.snd := mem_map_of_mem hp
      refine everywhere_mk.mpr ⟨?_, fun deep hd => Holds.mono (Everywhere.child hinner hd) fun id hid => ?_⟩
      · have hkid : (Node.mk lbl form).id ∈ (made.map (·.2.id)).children :=
          Form.mem_children_map.mpr ⟨_, hp, rfl⟩
        refine (get?_add_of_lt _ _ _ _ (hlt (id_mem_idsAll hmem))).trans ?_
        rw [Everywhere.here hinner, Option.map_some, if_pos hkid]
        rfl
      · have hbelow : id ∈ idsAll form.children := mem_flatMap.mpr ⟨deep, hd, hid⟩
        have hnot : id ∉ (made.map (·.2.id)).children := by
          intro hm
          obtain ⟨root, hr, rfl⟩ := hroot hm
          exact id_ne_of_below h.ids_nodup hmem hbelow hr rfl
        rw [get?_add_of_lt _ _ _ _ (hlt (mem_flatMap.mpr ⟨_, hmem, ?_⟩))]
        · simp [hnot]
        · rw [ids_mk]
          exact .tail _ hbelow
  · rw [unplaced_create, unplaced_mk, Form.map_map, Form.map_map, Form.map_congr h.same]

end Copied

/-- A tree that was there before is copied. -/
lemma cloneUpTo_copied (hd : forest.isTreeUpTo depth id = true) (hs : forest.Stays old)
    (hle : forest.size ≤ old.size) : ∃ pair new, pair.1.id = id ∧ (cloneUpTo depth id).run old = some (pair.2.id, new) ∧
    Copied forest old [pair] new := by
  induction depth generalizing id old with
  | zero => cases hd
  | succ depth ih =>
    obtain ⟨hlt, hkids⟩ := isTreeUpTo_succ.mp hd
    obtain ⟨entry, hentry⟩ : ∃ entry, forest.get? id = some entry := ⟨_, Array.getElem?_eq_getElem hlt⟩
    have hkid (kid : NodeId) (hk : kid ∈ entry.form.children) : forest.isTreeUpTo depth kid = true := by
      refine hkids kid ?_
      rw [Child, Forest.entry, hentry]
      exact hk
    obtain ⟨made, new, hform, hrun, hcopied⟩ :=
      Form.exists_mapM (fun kid hk done mid (hdone : Copied forest old done mid) => by
      obtain ⟨pair, new, hid, hrun, hpair⟩ :=
        ih (hkid kid hk) (hdone.stays hs hle) (Nat.le_trans hle hdone.numbered.grows.le)
      exact ⟨pair, new, hid, hrun, hdone.append hpair⟩) (.nil forest old)
    refine ⟨_, _, rfl, ?_, hcopied.parent hentry hform⟩
    rw [cloneUpTo]
    simp [(hs id hlt).trans hentry, hrun]
    rfl

/-- A tree without a cycle is copied.  The copy has the forms, types and spans
of the tree and its children in the same places.  It is made of new nodes, each
of which is reached once and belongs to the one it is reached from; the root
belongs to none.  Nodes that were there before have not changed. -/
theorem cloneSubtree?_copies (forest : Forest) (id : NodeId) (h : forest.Acyclic id) :
    ∃ tree twin grown, tree.id = id ∧ forest.Holds tree ∧
      forest.cloneSubtree? id = some (twin.id, grown) ∧ grown.Holds twin ∧
      twin.unplaced = tree.unplaced ∧ twin.Linked ∧ twin.parent? = none ∧
      twin.ids.Nodup ∧ (∀ node ∈ twin.ids, forest.size ≤ node.index) ∧
      ∀ node, node.index < forest.size → grown.get? node = forest.get? node := by
  obtain ⟨⟨tree, twin⟩, grown, hid, hrun, hcopied⟩ :=
    cloneUpTo_copied h.isTreeUpTo (fun _ _ => rfl) (Nat.le_refl _)
  have hids : idsAll [twin] = twin.ids := by rw [idsAll_cons, idsAll_nil, append_nil]
  exact ⟨tree, twin, grown, hid, hcopied.source _ (.head _), hrun, hcopied.holds _ (.head _),
    hcopied.same _ (.head _),
    hcopied.numbered.linked (forall_mem_nil _) twin (.head _), hcopied.free _ (.head _), hids ▸ hcopied.ids_nodup,
    fun node hm => (hcopied.between (hids ▸ hm)).1, hcopied.kept⟩

/-- `1 + 1` in node 2, whose operands are one node. -/
def sharedSum : Forest :=
  (((empty .empty).add (.immediate (.int 1)) .int .empty).2.add (.binary .add ⟨1⟩ ⟨1⟩) .int .empty).2

/-- The shared operand is copied twice. -/
theorem cloneSubtree?_copies_sharedSum : sharedSum.Acyclic ⟨2⟩ ∧ ∃ (twin : Node) (grown : Forest),
    sharedSum.cloneSubtree? ⟨2⟩ = some (twin.id, grown) ∧ twin.Linked ∧ twin.ids.Nodup := by
  have hacyclic : sharedSum.Acyclic ⟨2⟩ := by
    refine .of_lt (by decide) fun node kid hk => ?_
    obtain ⟨_ | _ | _ | index⟩ := node
    · cases hk
    · cases hk
    · have hone : kid ∈ [(⟨1⟩ : NodeId), ⟨1⟩] := hk
      obtain rfl : kid = ⟨1⟩ := by simpa using hone
      decide
    · cases hk
  obtain ⟨_, twin, grown, -, -, hrun, -, -, hlinked, -, hn, -⟩ := cloneSubtree?_copies sharedSum ⟨2⟩ hacyclic
  exact ⟨hacyclic, twin, grown, hrun, hlinked, hn⟩

end Forest

end Shading
