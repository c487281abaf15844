import Shading.Proofs.Simplify.Sweep

/-!
# Literals that are known

A condition can become literal when dead stores go.  `Node.seenBy known` shows
a tree to one who knows only some of its literals, and as long as no assignment
has the number of one of these, removing dead stores changes nothing in the way
control is then seen to take (`SweptTo.seen`).
-/

namespace Shading

open Form
open List hiding map map_id map_map

variable {a node swept : Node} {lbl : Label} {known : List NodeId} {tbl : SymbolTable}

namespace Node

section

variable {form : Form Node}

/-! ## Trees -/

/-- The numbers of the literals below a node. -/
def literals (node : Node) : List NodeId := (node.preorder.filter (·.immediate?.isSome)).map id

/-- A literal that is not known could be any variable. -/
def seenForm (isKnown : Bool) : Form Node → Form Node
  | .immediate value => if isKnown then .immediate value else .var ⟨0⟩
  | form => form

/-- The tree in which only the literals with these numbers are known. -/
def seenBy (known : List NodeId) (node : Node) : Node :=
  node.fold fun label form => .mk label (seenForm (label.id ∈ known) (form.map Prod.snd))

lemma seenBy_mk (lbl : Label) (form : Form Node) :
    (mk lbl form).seenBy known = .mk lbl (seenForm (lbl.id ∈ known) (form.map (seenBy known))) := by
  rw [seenBy, fold_mk, map_map]
  rfl

lemma seenForm_of_immediate? (isKnown : Bool) (h : form.immediate? = none) : seenForm isKnown form = form := by
  cases form with
  | immediate val => cases h
  | _ => rfl

/-- A node that is no literal is seen as it is. -/
lemma seenBy_of_immediate? (h : form.immediate? = none) :
    (mk lbl form).seenBy known = .mk lbl (form.map (seenBy known)) := by
  rw [seenBy_mk, seenForm_of_immediate? _ (by rwa [immediate?_map])]

lemma children_seenBy (known : List NodeId) (node : Node) :
    (node.seenBy known).form.children = node.form.children.map (seenBy known) := by
  obtain ⟨lbl, form⟩ := node
  rw [seenBy_mk, form_mk, form_mk, ← children_map]
  cases form with
  | immediate val =>
    rw [map, seenForm]
    split <;> rfl
  | _ => rfl

lemma seenBy_withParent (node : Node) (parent? : Option NodeId) :
    (node.withParent parent?).seenBy known = (node.seenBy known).withParent parent? := by
  obtain ⟨lbl, form⟩ := node
  rw [seenBy_mk]
  exact seenBy_mk _ _

/-- Children that change their parent are seen alike. -/
lemma seenBy_adopt (id : NodeId) (form : Form Node) :
    ((mk lbl form).seenBy known).Alike ((mk lbl (adopt id form)).seenBy known) := by
  have hkids : (adopt id form).map (seenBy known) = adopt id (form.map (seenBy known)) := by
    rw [adopt, adopt, map_map, map_map]
    exact map_congr fun kid _ => seenBy_withParent kid _
  have hform : seenForm (lbl.id ∈ known) (adopt id (form.map (seenBy known))) =
      adopt id (seenForm (lbl.id ∈ known) (form.map (seenBy known))) := by
    cases form with
    | immediate val =>
      simp only [adopt, map, seenForm]
      split <;> rfl
    | _ => rfl
  rw [seenBy_mk, seenBy_mk, hkids, hform]
  exact .mk rfl (erase_adopt id _).symm

/-- Who knows all literals sees the tree as it is. -/
lemma seenBy_eq_self (h : node.Everywhere fun inner => inner.immediate?.isSome = true → inner.id ∈ known) :
    node.seenBy known = node := by
  induction node with
  | mk lbl form ih =>
    obtain ⟨hroot, hkids⟩ := everywhere_mk.mp h
    have hmap : form.map (seenBy known) = form := by
      rw [map_congr (g := fun kid => kid) fun kid hc => ih kid hc (hkids kid hc), map_id]
    rw [seenBy_mk, hmap]
    cases form with
    | immediate val =>
      have hknown : lbl.id ∈ known := hroot rfl
      rw [seenForm, if_pos (decide_eq_true hknown)]
    | _ => rfl

end

/-! ## Flow -/

/-- Control is known to stay in at least as many places if more is known. -/
lemma keepsFlow_seenBy (known : List NodeId) (node : Node) : (node.seenBy known).KeepsFlow node := by
  induction node with
  | mk lbl form ih =>
    cases himm : form.immediate? with
    | none =>
      let pairs : Form (Node × Node) := form.map fun kid => (kid.seenBy known, kid)
      have hpairs : (mk lbl (pairs.map Prod.fst)).KeepsFlow (.mk lbl (pairs.map Prod.snd)) := by
        refine .form fun pair hp => ?_
        obtain ⟨kid, hc, rfl⟩ := mem_children_map.mp hp
        exact ih kid hc
      rw [map_map, map_map, map_id] at hpairs
      rw [seenBy_of_immediate? himm]
      exact hpairs
    | some val =>
      cases form with
      | immediate val =>
        rw [seenBy_mk, map, seenForm]
        split
        · exact .refl _
        · exact .of_plain rfl rfl rfl rfl
      | _ => cases himm

lemma exits_seenBy (known : List NodeId) (node : Node) : (node.seenBy known).exits = node.exits :=
  (keepsFlow_seenBy known node).exits_eq.symm

lemma ends_seenBy_of_ends (h : node.ends = false) : (node.seenBy known).ends = false := by
  rw [Bool.eq_false_iff] at h ⊢
  exact fun hseen => h ((keepsFlow_seenBy known node).ends hseen)

lemma Tidy.seenBy (h : node.Tidy) : (node.seenBy known).Tidy := by
  induction node with
  | mk lbl form ih =>
    obtain ⟨hrule, hkids⟩ := tidy_mk.mp h
    have hseen := children_seenBy known (mk lbl form)
    rw [seenBy_mk] at hseen ⊢
    refine tidy_mk.mpr ⟨?_, fun kid hc => ?_⟩
    · cases form with
      | block stmts =>
        intro statement hm
        change statement ∈ (stmts.map _).dropLast at hm
        rw [← map_dropLast] at hm
        obtain ⟨inner, hi, rfl⟩ := mem_map.mp hm
        exact ends_seenBy_of_ends (hrule inner hi)
      | immediate val =>
        rw [map, seenForm]
        split <;> trivial
      | _ => trivial
    · rw [← form_mk lbl (seenForm _ _), hseen] at hc
      obtain ⟨inner, hi, rfl⟩ := mem_map.mp hc
      exact ih inner hi (hkids inner hi)

lemma literalCondition?_seenForm (form : Form Node) : (mk lbl (seenForm false form)).literalCondition? = none := by
  cases form <;> rfl

lemma isDefault_of_isExpression (h : node.form.isExpression = true) : node.isDefault = false := by
  obtain ⟨lbl, form⟩ := node
  cases form <;> first | rfl | cases h

/-! ## Sweeps -/

/-- No assignment has the number of a literal that is known. -/
def StoresUnknown (known : List NodeId) (node : Node) : Prop :=
  node.Everywhere fun inner => ∀ target value, inner.form = .binary .assign target value → inner.id ∉ known

lemma storesUnknown_adopt {id : NodeId} {form : Form Node} (h : ∀ kid ∈ form.children, kid.StoresUnknown known) :
    ∀ kid ∈ (adopt id form).children, kid.StoresUnknown known := by
  intro kid hc
  obtain ⟨⟨lbl, inner⟩, ho, rfl⟩ := mem_children_map.mp hc
  exact everywhere_mk.mpr (everywhere_mk.mp (h _ ho))

end Node

open Node

section

variable {uses : List Use} (h : Sweeps tbl uses node swept)
include h

lemma Sweeps.storesUnknown (hs : node.StoresUnknown known) : swept.StoresUnknown known := by
  induction h with
  | form pairs children ih =>
    obtain ⟨hroot, hkids⟩ := everywhere_mk.mp hs
    refine everywhere_mk.mpr ⟨fun tgt val hform => ?_, fun kid hc => ?_⟩
    · cases pairs with
      | binary op lhs rhs =>
        cases hform
        exact hroot _ _ rfl
      | _ => cases hform
    · obtain ⟨pair, hp, rfl⟩ := mem_children_map.mp hc
      exact ih pair hp (hkids pair.1 (mem_children_map.mpr ⟨pair, hp, rfl⟩))
  | collapse isDead inside ih =>
    obtain ⟨hroot, hkids⟩ := everywhere_mk.mp hs
    have hval := ih (hkids _ (.tail _ (.head _)))
    exact everywhere_mk.mpr ⟨fun _ _ _ => hroot _ _ rfl, storesUnknown_adopt fun _ hc => Everywhere.child hval hc⟩
  | statements inside ih =>
    obtain ⟨-, hkids⟩ := everywhere_mk.mp (ih hs)
    exact everywhere_mk.mpr ⟨nofun, storesUnknown_adopt fun kid hc => hkids kid (mem_filter.mp hc).1⟩
  | step inside isPure ih =>
    obtain ⟨-, hkids⟩ := everywhere_mk.mp (ih hs)
    exact everywhere_mk.mpr ⟨nofun, storesUnknown_adopt fun kid hc => hkids kid (mem_children_of_withoutStep hc)⟩

lemma Sweeps.seen (ht : node.Typed tbl) (hs : node.StoresUnknown known) :
    (node.seenBy known).FlowsAs (swept.seenBy known) := by
  induction h with
  | @form lbl pairs children ih =>
    obtain ⟨-, hkids⟩ := everywhere_mk.mp hs
    cases himm : pairs.immediate? with
    | none =>
      let seen : Form (Node × Node) := pairs.map fun pair => (pair.1.seenBy known, pair.2.seenBy known)
      have hseen : (Node.mk lbl (seen.map Prod.fst)).FlowsAs (.mk lbl (seen.map Prod.snd)) := by
        refine .form fun pair hp => ?_
        obtain ⟨original, ho, rfl⟩ := mem_children_map.mp hp
        have hm : original.1 ∈ (pairs.map Prod.fst).children := mem_children_map.mpr ⟨original, ho, rfl⟩
        exact ih original ho (ht.child hm) (hkids _ hm)
      rw [map_map, map_map] at hseen
      rw [seenBy_of_immediate? (by rwa [immediate?_map]), seenBy_of_immediate? (by rwa [immediate?_map]),
        map_map, map_map]
      exact hseen
    | some val =>
      cases pairs with
      | immediate val => exact .refl _
      | _ => cases himm
  | @collapse lbl tgt val swept isDead inside ih =>
    have hcollapse : Sweeps tbl uses (.mk lbl (.binary .assign tgt val))
        (.mk { lbl with type := swept.type, span := swept.span } (Node.adopt lbl.id swept.form)) :=
      .collapse isDead inside
    have hkept := hcollapse.kept ht
    have hexpr := hkept.standsIn.isExpression_eq.trans rfl
    have hasg := exits_tidy_of_isExpression ht rfl
    have hswept := exits_tidy_of_isExpression hkept.typed hexpr
    have hunknown : lbl.id ∉ known := (everywhere_mk.mp hs).1 tgt val rfl
    refine ⟨.of_plain ?_ (ends_seenBy_of_ends (ends_of_isExpression rfl)) ?_ ?_,
      .of_plain ?_ (ends_seenBy_of_ends (ends_of_isExpression hexpr)) ?_ ?_, fun _ => hswept.2.seenBy⟩
    · rw [exits_seenBy, exits_seenBy, hswept.1, hasg.1]
    · rw [seenBy_of_immediate? rfl]
      rfl
    · rw [seenBy_of_immediate? rfl]
      rfl
    · rw [exits_seenBy, exits_seenBy, hswept.1, hasg.1]
    -- A literal that was a value is not known.
    · rw [seenBy_mk, decide_eq_false hunknown]
      exact literalCondition?_seenForm _
    · exact Bool.eq_false_iff.mpr fun hdef =>
        absurd ((keepsFlow_seenBy known _).isDefault hdef) (Bool.eq_false_iff.mp (isDefault_of_isExpression hexpr))
  | @statements lbl node nodes inside ih =>
    refine (ih ht hs).trans (.trans ?_ (.of_alike (seenBy_adopt lbl.id _)))
    rw [seenBy_of_immediate? rfl, seenBy_of_immediate? rfl]
    refine .filter fun node hm hkeep => ?_
    obtain ⟨hexits, hends⟩ := flow_of_isDeadStatement ((inside.kept ht).typed.child hm) (by simpa using hkeep)
    exact ⟨(exits_seenBy known node).trans hexits, ends_seenBy_of_ends hends⟩
  | @step lbl node kind init? cond? step body inside isPure ih =>
    refine (ih ht hs).trans (.trans ?_ (.of_alike (seenBy_adopt lbl.id _)))
    rw [seenBy_of_immediate? rfl, seenBy_of_immediate? rfl]
    exact .withoutStep

end

/-- Removing dead stores does not change what is seen. -/
lemma SweptTo.seen (h : SweptTo tbl node swept) (ht : node.Typed tbl) (hs : node.StoresUnknown known) :
    swept.StoresUnknown known ∧ (node.seenBy known).FlowsAs (swept.seenBy known) := by
  induction h with
  | refl => exact ⟨hs, .refl _⟩
  | tail pre last ih =>
    obtain ⟨uses, hsweeps⟩ := last
    exact ⟨hsweeps.storesUnknown ih.1, ih.2.trans (hsweeps.seen (SweptTo.kept pre ht).typed ih.1)⟩

end Shading
