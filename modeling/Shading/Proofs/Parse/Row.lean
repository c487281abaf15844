import Shading.Proofs.Parse.Typing

/-!
# Rows of nodes that were read

`NodesRead` says what reading a row of nodes does: the table grows, the names
that the nodes declare come into scope, and the nodes are typed and in scope.
Rows are joined by `NodesRead.append`, closed by `NodesRead.block` and put in a
node by `NodesRead.wrap`.
-/

namespace Shading

open Node SymbolTable List

/-- Nodes were read in a row, starting with one table and ending with another. -/
structure NodesRead (table later : SymbolTable) (nodes : List Node) : Prop where
  grows : table.Extends later
  wellFormed : later.WellFormed
  inner_ne : later.inner ≠ []
  inner_tail : later.inner.tail = table.inner.tail
  outer_eq : later.outer = table.outer
  visible : ∀ id, id ∈ later.visible ↔ id ∈ nodes.flatMap exports ∨ id ∈ table.visible
  typed : ∀ last, later.Extends last → ∀ node ∈ nodes, node.Typed last
  inScope : ∀ last, later.Extends last → Node.ScopedAll last table.locals nodes

namespace NodesRead

variable {a b c : SymbolTable} {first second : List Node} {lbl : Label} {node : Node}

lemma nil (hw : a.WellFormed) (hi : a.inner ≠ []) : NodesRead a a [] := by
  refine ⟨.refl a, hw, hi, rfl, rfl, ?_, ?_, fun _ _ => trivial⟩ <;> simp

lemma isLocal_of_export (h : NodesRead a b first) {id : SymbolId} (hid : id ∈ first.flatMap exports)
    {last : SymbolTable} (hl : b.Extends last) : (last.get id).isLocal = true := by
  obtain ⟨⟨lbl, form⟩, hn, hid⟩ := mem_flatMap.mp hid
  have hrule := (h.typed last hl _ hn).rule
  cases form with
  | declare sym init? =>
    rw [exports_mk_declare, mem_singleton] at hid
    have hkind : (last.get sym).kind = .localVariable := hrule.1
    rw [hid, Symbol.isLocal, hkind]
  | _ => exact absurd hid (by simp [exports])

lemma mem_locals (h : NodesRead a b first) (hw : a.WellFormed) (id : SymbolId) :
    id ∈ b.locals ↔ id ∈ first.flatMap exports ∨ id ∈ a.locals := by
  rw [SymbolTable.mem_locals, h.visible, SymbolTable.mem_locals]
  constructor
  · rintro ⟨he | hv, hlocal⟩
    · exact .inl he
    · rw [h.grows.get_eq id (hw.bound id hv)] at hlocal
      exact .inr ⟨hv, hlocal⟩
  · rintro (he | ⟨hv, hlocal⟩)
    · exact ⟨.inl he, h.isLocal_of_export he (.refl b)⟩
    · rw [← h.grows.get_eq id (hw.bound id hv)] at hlocal
      exact ⟨.inr hv, hlocal⟩

lemma append (hw : a.WellFormed) (h₁ : NodesRead a b first) (h₂ : NodesRead b c second) :
    NodesRead a c (first ++ second) where
  grows := h₁.grows.trans h₂.grows
  wellFormed := h₂.wellFormed
  inner_ne := h₂.inner_ne
  inner_tail := h₂.inner_tail.trans h₁.inner_tail
  outer_eq := h₂.outer_eq.trans h₁.outer_eq
  visible id := by
    rw [h₂.visible, h₁.visible, flatMap_append, mem_append]
    tauto
  typed last hl node hn := by
    rcases mem_append.mp hn with hn | hn
    · exact h₁.typed last (h₂.grows.trans hl) node hn
    · exact h₂.typed last hl node hn
  inScope last hl := by
    rw [scopedAll_append]
    refine ⟨h₁.inScope last (h₂.grows.trans hl), (h₂.inScope last hl).congr fun id => ?_⟩
    rw [h₁.mem_locals hw, mem_append]
    simp

lemma of_alike {other : Node} (h : NodesRead a b [node]) (hn : node.Alike other) : NodesRead a b [other] := by
  obtain ⟨h₁, h₂, h₃, h₄, h₅, h₆, h₇, h₈⟩ := h
  simp only [flatMap_singleton, mem_singleton, forall_eq] at h₆ h₇
  refine ⟨h₁, h₂, h₃, h₄, h₅, ?_, ?_, ?_⟩
  · simpa only [flatMap_singleton, ← hn.exports_eq] using h₆
  · simpa only [mem_singleton, forall_eq] using fun last hl => (h₇ last hl).of_alike hn
  · exact fun last hl => ⟨(h₈ last hl).1.of_alike hn, trivial⟩

/-- An expression declares nothing. -/
lemma expression (hw : a.WellFormed) (hi : a.inner ≠ []) (h : node.ReadUnder a) :
    NodesRead a a [node] := by
  have hexp : node.exports = [] := by
    obtain ⟨lbl, form⟩ := node
    apply exports_eq_nil
    have := h.isExpression
    cases form <;> first | rfl | cases this
  refine ⟨.refl a, hw, hi, rfl, rfl, ?_, ?_, fun last hl => ⟨h.inScope last hl, trivial⟩⟩
  · simp [hexp]
  · simpa using h.typed

/-- Nodes of one form around those that were read.  `hscope` says that the form
needs no other scope than they do. -/
lemma wrap {form : Form Node} (hv : lbl.type.Valid) (hd : form.isDeclare = false)
    (hperm : form.children.Perm first) (hexp : first.flatMap exports = [])
    (h : NodesRead a b first) (hrule : ∀ last, b.Extends last → Node.FormRule last lbl.type form)
    (hscope : ∀ last, b.Extends last → Node.ScopeRule last a.locals form) :
    NodesRead a b [.mk lbl form] := by
  have hown : (Node.mk lbl form).exports = [] := Node.exports_eq_nil hd
  refine ⟨h.grows, h.wellFormed, h.inner_ne, h.inner_tail, h.outer_eq, ?_, fun last hl => ?_, fun last hl => ?_⟩
  · intro id
    rw [h.visible, hexp, flatMap_singleton, hown]
  · rw [forall_mem_singleton, typed_mk]
    exact ⟨⟨hv, hrule last hl⟩, fun kid hc => h.typed last hl kid (hperm.mem_iff.mp hc)⟩
  · exact ⟨scoped_mk.mpr (hscope last hl), trivial⟩

lemma scoped_of_mem (hexp : first.flatMap exports = []) {tbl : SymbolTable} {Γ : List SymbolId}
    (h : Node.ScopedAll tbl Γ first) (hn : node ∈ first) : node.Scoped tbl Γ := by
  induction first with
  | nil => cases hn
  | cons head rest ih =>
    rw [flatMap_cons, append_eq_nil_iff] at hexp
    rcases mem_cons.mp hn with rfl | hn
    · exact h.1
    · refine ih hexp.2 ?_ hn
      have := h.2
      rwa [hexp.1] at this

/-- What is declared in a scope of its own is gone with it. -/
lemma close (h : NodesRead a.openScope b first) :
    a.Extends b.closeScope ∧ b.closeScope.WellFormed ∧ b.closeScope.inner = a.inner ∧
      b.closeScope.outer = a.outer ∧ b.closeScope.visible = a.visible := by
  have hinner : b.closeScope.inner = a.inner := h.inner_tail
  have houter : b.closeScope.outer = a.outer := h.outer_eq
  refine ⟨((SymbolTable.Extends.openScope a).trans h.grows).trans (.closeScope b), h.wellFormed.closeScope,
    hinner, houter, ?_⟩
  rw [SymbolTable.visible, SymbolTable.visible, hinner, houter]

lemma block (hi : a.inner ≠ []) (h : NodesRead a.openScope b first)
    (hv : lbl.type.Valid) (hs : ∀ node ∈ first, node.form.isStatement = true) :
    NodesRead a b.closeScope [.mk lbl (.block first)] := by
  obtain ⟨hgrows, hwell, hinner, houter, hvisible⟩ := h.close
  have hlast : ∀ last, b.closeScope.Extends last → b.Extends last := fun last hl =>
    (SymbolTable.Extends.closeScope b).trans hl
  refine ⟨hgrows, hwell, hinner ▸ hi, by rw [hinner], houter, ?_, fun last hl => ?_, fun last hl => ?_⟩
  · intro id
    rw [hvisible]
    simp [exports]
  · rw [forall_mem_singleton, typed_mk]
    exact ⟨⟨hv, hs⟩, h.typed last (hlast last hl)⟩
  · exact ⟨scoped_mk.mpr (h.inScope last (hlast last hl)), trivial⟩

lemma declare {sym : Symbol} {init? : Option Node} (hw : a.WellFormed)
    (hi : a.inner ≠ []) (hk : sym.kind = .localVariable) (hs : sym.type.Valid ∧ sym.type.isVoid = false)
    (hv : lbl.type.Valid)
    (hinit : ∀ initializer ∈ init?, initializer.ReadUnder a ∧ initializer.type = sym.type) :
    NodesRead a (a.declare sym).2 [.mk lbl (.declare ⟨a.size⟩ init?)] := by
  have hsym : sym.WellFormed := by
    rw [Symbol.WellFormed, hk]
    exact hs
  have hgrows : a.Extends (a.declare sym).2 := .declare fun off access h => by rw [hk] at h; cases h
  obtain ⟨Γ, rest, hscope⟩ := exists_cons_of_ne_nil hi
  have hget : ∀ last, (a.declare sym).2.Extends last → last.get ⟨a.size⟩ = sym := by
    intro last hl
    rw [hl.get_eq ⟨a.size⟩ (by rw [size_declare]; exact Nat.lt_succ_self _), get_declare_new]
  refine ⟨hgrows, hw.declare hsym fun h => absurd h hi, ?_, inner_declare_tail a sym,
    SymbolTable.outer_declare_of_inner a sym hscope, ?_, fun last hl => ?_, fun last hl => ⟨?_, trivial⟩⟩
  · rw [SymbolTable.declare, hscope]
    exact cons_ne_nil _ _
  · intro id
    rw [mem_visible_declare, flatMap_singleton, exports_mk_declare, mem_singleton]
  · rw [forall_mem_singleton, typed_mk, Node.FormRule, hget last hl]
    refine ⟨⟨hv, hk, hs.2, hs.1, fun initializer h => ⟨(hinit initializer h).1.isExpression,
      (hinit initializer h).2⟩⟩, fun kid hc => ?_⟩
    exact (hinit kid (by simpa [Form.children] using hc)).1.typed last (hgrows.trans hl)
  · rw [scoped_mk]
    refine ⟨fun hm => ?_, fun initializer h => (hinit initializer h).1.inScope last (hgrows.trans hl)⟩
    exact absurd (hw.bound _ (SymbolTable.mem_locals.mp hm).1) (Nat.lt_irrefl _)

end NodesRead

end Shading
