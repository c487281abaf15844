import Shading.Proofs.Tree.Uses

/-!
# Scopes of locals

`Node.Scoped` says that every local is used where its declaration is in scope
and is not declared again there.  A declaration reaches to the end of its
block, and one at the start of a loop to the end of the loop.
-/

namespace Shading

open List

variable {node : Node} {a b : List SymbolId} {lbl : Label} {nodes : List Node}

namespace Node

/-- The symbol that a statement declares for those behind it. -/
def exports (node : Node) : List SymbolId :=
  match node.form with
  | .declare sym _ => [sym]
  | _ => []

/-- The symbols that the start of a loop declares for the rest of it. -/
def initExports (node : Node) : List SymbolId :=
  match node.form with
  | .block stmts => stmts.flatMap exports
  | _ => node.exports

@[simp] lemma exports_mk_declare (lbl : Label) (sym : SymbolId) (ini? : Option Node) :
    (mk lbl (.declare sym ini?)).exports = [sym] := rfl

@[simp] lemma exports_erase (node : Node) : node.erase.exports = node.exports := by
  obtain ⟨lbl, form⟩ := node
  rw [exports, exports, form_erase, form_mk]
  cases form <;> rfl

@[simp] lemma initExports_erase (node : Node) : node.erase.initExports = node.initExports := by
  obtain ⟨lbl, form⟩ := node
  rw [initExports, initExports, form_erase, form_mk, exports_erase]
  cases form <;> rw [Form.map]
  simp only [flatMap_map, exports_erase]

lemma exports_eq_nil (h : node.form.isDeclare = false) : node.exports = [] := by
  obtain ⟨lbl, form⟩ := node
  cases form <;> first | rfl | cases h

lemma initExports_of_expression (h : node.form.isExpression = true) : node.initExports = [] := by
  obtain ⟨lbl, form⟩ := node
  cases form <;> first | rfl | cases h

lemma initExports_of_isDeclare (h : node.form.isDeclare = true) : node.initExports = node.exports := by
  obtain ⟨lbl, form⟩ := node
  cases form <;> first | rfl | cases h

lemma getD_initExports (init? : Option Node) :
    (init?.map initExports).getD [] = init?.toList.flatMap initExports := by
  cases init? <;> simp

lemma mem_names_of_mem_exports {sym : SymbolId} (h : sym ∈ node.exports) : sym ∈ node.names := by
  obtain ⟨lbl, form⟩ := node
  rw [names_mk]
  cases form <;> first | exact mem_append_right _ h | cases h

lemma mem_names_of_mem_initExports {sym : SymbolId} (h : sym ∈ node.initExports) : sym ∈ node.names := by
  obtain ⟨lbl, form⟩ := node
  cases form with
  | block stmts =>
    obtain ⟨statement, hm, hs⟩ := mem_flatMap.mp h
    exact (names_sublist_of_child hm).subset (mem_names_of_mem_exports hs)
  | _ => exact mem_names_of_mem_exports h

/-! ## Scoped trees -/

section

variable (table : SymbolTable)

/-- Statements in a row, given which scopes suit each. -/
def scopeSequence : List (Node × (List SymbolId → Prop)) → List SymbolId → Prop
  | [], _ => True
  | (node, suits) :: rest, scope => suits scope ∧ scopeSequence rest (node.exports ++ scope)

/-- The scopes that suit a form, given those that suit its children. -/
def scopeForm (form : Form (Node × (List SymbolId → Prop))) (scope : List SymbolId) : Prop :=
  match form with
  | .block stmts => scopeSequence stmts scope
  | .loop _ init? cond? step? body =>
    let inside := (init?.map (·.1.initExports)).getD [] ++ scope
    (∀ init ∈ init?, init.2 scope) ∧ (∀ cond ∈ cond?, cond.2 inside) ∧
      (∀ step ∈ step?, step.2 inside) ∧ body.2 inside
  | .declare sym initializer? => sym ∉ scope ∧ ∀ initializer ∈ initializer?, initializer.2 scope
  | .var sym => (table.get sym).isLocal = true → sym ∈ scope
  | form => ∀ child ∈ form.children, child.2 scope

/-- Locals are used below the node where they are declared, given those that
are in scope. -/
def Scoped (scope : List SymbolId) (node : Node) : Prop :=
  node.fold (fun _ => scopeForm table) scope

/-- Statements in a row are in scope. -/
def ScopedAll : List SymbolId → List Node → Prop
  | _, [] => True
  | scope, node :: rest => node.Scoped table scope ∧ ScopedAll (node.exports ++ scope) rest

/-- The rule of a form. -/
def ScopeRule (scope : List SymbolId) (form : Form Node) : Prop :=
  match form with
  | .block stmts => ScopedAll table scope stmts
  | .loop _ init? cond? step? body =>
    let inside := (init?.map initExports).getD [] ++ scope
    (∀ init ∈ init?, init.Scoped table scope) ∧ (∀ cond ∈ cond?, cond.Scoped table inside) ∧
      (∀ step ∈ step?, step.Scoped table inside) ∧ body.Scoped table inside
  | .declare sym initializer? =>
    sym ∉ scope ∧ ∀ initializer ∈ initializer?, initializer.Scoped table scope
  | .var sym => (table.get sym).isLocal = true → sym ∈ scope
  | form => ∀ child ∈ form.children, child.Scoped table scope

end

variable {table : SymbolTable} {Γ : List SymbolId}

lemma scopeSequence_map (nodes : List Node) (Γ : List SymbolId) :
    scopeSequence (nodes.map fun node => (node, node.fold fun _ => scopeForm table)) Γ ↔
      ScopedAll table Γ nodes := by
  induction nodes generalizing Γ with
  | nil => exact Iff.rfl
  | cons node rest ih =>
    rw [map_cons, scopeSequence, ScopedAll, ih]
    exact Iff.rfl

lemma scoped_mk {form : Form Node} : (mk lbl form).Scoped table Γ ↔ ScopeRule table Γ form := by
  rw [Scoped, fold_mk]
  cases form <;> rw [Form.map] <;>
    simp [scopeForm, ScopeRule, scopeSequence_map, Form.children, Scoped, Option.map_map, Function.comp_def,
      or_imp, forall_and]

lemma Scoped.child_of_expression {form : Form Node} (h : (mk lbl form).Scoped table Γ)
    (he : form.isExpression = true) {kid : Node} (hc : kid ∈ form.children) : kid.Scoped table Γ := by
  rw [scoped_mk] at h
  cases form <;> first | cases hc; done | cases he; done | exact h kid hc

lemma Scoped.arm {cond? : Option Node} {body : Node} (h : (mk lbl (.arm cond? body)).Scoped table Γ) :
    (∀ cond ∈ cond?, cond.Scoped table Γ) ∧ body.Scoped table Γ := by
  rw [scoped_mk] at h
  exact ⟨fun cond hc => h cond (mem_append_left _ (Option.mem_toList.mpr hc)),
    h body (mem_append_right _ (.head _))⟩

lemma scopedAll_append (Γ : List SymbolId) (first second : List Node) : ScopedAll table Γ (first ++ second) ↔
      ScopedAll table Γ first ∧ ScopedAll table ((first.reverse.flatMap exports) ++ Γ) second := by
  induction first generalizing Γ with
  | nil => simp [ScopedAll]
  | cons node rest ih =>
    rw [cons_append, ScopedAll, ScopedAll, ih, reverse_cons, flatMap_append, and_assoc]
    simp

lemma scopedAll_narrow_of (hn : ∀ node ∈ nodes, ∀ {a b : List SymbolId}, b ⊆ a →
    (∀ sym ∈ a, sym ∈ b ∨ sym ∉ node.names) → node.Scoped table a → node.Scoped table b)
    (hsub : b ⊆ a) (hab : ∀ sym ∈ a, sym ∈ b ∨ ∀ node ∈ nodes, sym ∉ node.names)
    (h : ScopedAll table a nodes) : ScopedAll table b nodes := by
  induction nodes generalizing a b with
  | nil => trivial
  | cons node rest ih =>
    refine ⟨hn node (.head _) hsub (fun sym hs => (hab sym hs).imp_right fun hm => hm node (.head _))
      h.1, ih (forall_mem_cons.mp hn).2
        (append_subset.mpr ⟨subset_append_left .., subset_append_of_subset_right _ hsub⟩) (fun sym hs => ?_) h.2⟩
    rcases mem_append.mp hs with hs | hs
    · exact .inl (mem_append_left _ hs)
    · exact (hab sym hs).imp (mem_append_right _) fun hm node hn => hm node (.tail _ hn)

/-- Symbols that a tree does not name can be taken out of its scope. -/
lemma Scoped.narrow (hsub : b ⊆ a) (hab : ∀ sym ∈ a, sym ∈ b ∨ sym ∉ node.names)
    (h : node.Scoped table a) : node.Scoped table b := by
  induction node generalizing a b with
  | mk lbl form ih =>
    rw [scoped_mk] at h ⊢
    have hkid {kid : Node} (hc : kid ∈ form.children) (sym : SymbolId) (hs : sym ∈ a) :
        sym ∈ b ∨ sym ∉ kid.names :=
      (hab sym hs).imp_right fun hm hn => hm ((names_sublist_of_child hc).subset hn)
    cases form with
    | block stmts =>
      exact scopedAll_narrow_of (fun node hm => ih node hm) hsub
        (fun sym hs => (hab sym hs).imp_right fun hm node hc hn => hm ((names_sublist_of_child hc).subset hn)) h
    | loop kind init? cond? step? body =>
      obtain ⟨hinit, hcond, hstep, hbody⟩ := h
      have hinside (kid : Node) (hc : kid ∈ (Form.loop kind init? cond? step? body).children) :
          kid.Scoped table ((init?.map initExports).getD [] ++ a) →
            kid.Scoped table ((init?.map initExports).getD [] ++ b) := by
        refine ih kid hc (append_subset.mpr ⟨subset_append_left .., subset_append_of_subset_right _ hsub⟩)
          fun sym hs => ?_
        rcases mem_append.mp hs with hs | hs
        · exact .inl (mem_append_left _ hs)
        · exact (hkid hc sym hs).imp_left (mem_append_right _)
      have hpart (node : Node) (hm : node ∈ init? ∨ node ∈ cond? ∨ node ∈ step?) :
          node ∈ (Form.loop kind init? cond? step? body).children := by
        rcases hm with hm | hm | hm <;> simp_all [Form.children]
      exact ⟨fun node hm => ih node (hpart node (.inl hm)) hsub (hkid (hpart node (.inl hm))) (hinit node hm),
        fun node hm => hinside node (hpart node (.inr (.inl hm))) (hcond node hm),
        fun node hm => hinside node (hpart node (.inr (.inr hm))) (hstep node hm),
        hinside body (by simp [Form.children]) hbody⟩
    | declare sym ini? =>
      refine ⟨fun hm => h.1 (hsub hm), fun initializer hi =>
        ih initializer ?_ hsub (hkid ?_) (h.2 initializer hi)⟩ <;>
        simpa [Form.children] using hi
    | var sym =>
      intro hl
      exact (hab sym (h hl)).resolve_right fun hm => hm (by simp [names_mk, Form.named])
    | _ => exact fun kid hc => ih kid hc hsub (hkid hc) (h kid hc)

lemma ScopedAll.narrow (hsub : b ⊆ a)
    (hab : ∀ sym ∈ a, sym ∈ b ∨ ∀ node ∈ nodes, sym ∉ node.names) (h : ScopedAll table a nodes) :
    ScopedAll table b nodes :=
  scopedAll_narrow_of (fun _ _ {_ _} hsub hab h => h.narrow hsub hab) hsub hab h

/-- Scopes with the same symbols suit the same trees. -/
lemma Scoped.congr (hab : ∀ sym, sym ∈ a ↔ sym ∈ b) (h : node.Scoped table a) : node.Scoped table b :=
  h.narrow (fun sym => (hab sym).mpr) fun sym hs => .inl ((hab sym).mp hs)

lemma ScopedAll.congr (hab : ∀ sym, sym ∈ a ↔ sym ∈ b) (h : ScopedAll table a nodes) :
    ScopedAll table b nodes :=
  h.narrow (fun sym => (hab sym).mpr) fun sym hs => .inl ((hab sym).mp hs)

lemma scopeSequence_erase (nodes : List (Node × (List SymbolId → Prop))) (Γ : List SymbolId) :
    scopeSequence (nodes.map fun kid => (kid.1.erase, kid.2)) Γ ↔ scopeSequence nodes Γ := by
  induction nodes generalizing Γ with
  | nil => exact Iff.rfl
  | cons node rest ih => rw [map_cons, scopeSequence, scopeSequence, exports_erase, ih]

lemma scoped_erase : node.erase.Scoped table Γ ↔ node.Scoped table Γ := by
  rw [Scoped, Scoped, fold_erase]
  intro lbl form
  funext Γ
  apply propext
  cases form <;> rw [Form.map] <;>
    simp [-Prod.forall, -Prod.exists, scopeForm, scopeSequence_erase, Form.children, Function.comp_def,
      or_imp, forall_and]

lemma Scoped.of_alike {a b : Node} (h : a.Scoped table Γ) (hab : a.Alike b) : b.Scoped table Γ := by
  rw [← scoped_erase, ← hab, scoped_erase]
  exact h

lemma Alike.exports_eq {a b : Node} (h : a.Alike b) : a.exports = b.exports := by
  rw [← exports_erase a, h, exports_erase]

lemma Alike.initExports_eq {a b : Node} (h : a.Alike b) : a.initExports = b.initExports := by
  rw [← initExports_erase a, h, initExports_erase]

end Node

end Shading
