import Shading.Proofs.Tree.Uses

/-!
# Members that are read and written

`Node.Readable` says that all members read below a node can be read.  What a
typed tree writes can be written (`Node.Typed.isWritable`).
-/

namespace Shading

open List

/-- A member can be read if the use reads it. -/
def Usage.Readable (table : SymbolTable) (usage : Usage) (sym : SymbolId) : Prop :=
  usage.reads = true → ∀ offset access, (table.get sym).kind = .member offset access → access.isReadable = true

/-- Whether a form reads all its children and no symbol of its own. -/
def Form.readsChildren {α : Type} : Form α → Bool
  | .var _ => false
  | .unary op _ => !op.isStep
  | .binary op _ _ => op ≠ .assign
  | _ => true

namespace Node

variable {tbl : SymbolTable} {lbl : Label} {form : Form Node} {usage : Usage} {node : Node}

/-- Members that are read below the node can be read. -/
def Readable (table : SymbolTable) (usage : Usage) (node : Node) : Prop :=
  ∀ use ∈ node.uses usage, use.usage.Readable table use.symbol

/-- The rule of a form. -/
def ReadRule (table : SymbolTable) (usage : Usage) (form : Form Node) : Prop :=
  match form with
  | .var sym => usage.Readable table sym
  | .binary .assign target value => target.Readable table .write ∧ value.Readable table .read
  | .unary op operand => operand.Readable table (if op.isStep then .readWrite else .read)
  | form => ∀ child ∈ form.children, child.Readable table .read

lemma readable_mk : (mk lbl form).Readable tbl usage ↔ ReadRule tbl usage form := by
  have hkids (form : Form Node) : (∀ use ∈ (form.map fun kid => (kid, kid.uses)).children.flatMap fun kid =>
    kid.2 .read,
      use.usage.Readable tbl use.symbol) ↔ ∀ kid ∈ form.children, kid.Readable tbl .read := by
    simp only [Form.children_map, mem_flatMap, mem_map, Readable]
    constructor
    · exact fun h kid hc use hu => h use ⟨_, ⟨kid, hc, rfl⟩, hu⟩
    · rintro h use ⟨_, ⟨kid, hc, rfl⟩, hu⟩
      exact h kid hc use hu
  rw [Readable, uses_mk]
  cases form with
  | var sym => exact forall_mem_singleton
  | declare sym init? =>
    have hwrite : Usage.Readable tbl .write sym := nofun
    rw [Form.map, formUses, forall_mem_append, forall_mem_singleton, and_iff_left hwrite]
    exact hkids (.declare sym init?)
  | unary op opd => exact Iff.rfl
  | binary op lhs rhs =>
    cases op with
    | assign => exact forall_mem_append
    | _ => exact hkids (.binary _ lhs rhs)
  | _ => exact hkids _

/-- Forms that read all their children have the rule of most forms. -/
lemma readRule_of_readsChildren (hp : form.readsChildren = true) :
    ReadRule tbl usage form ↔ ∀ kid ∈ form.children, kid.Readable tbl .read := by
  cases form with
  | var _ => cases hp
  | unary op opd =>
    have hstep : op.isStep = false := by simpa [Form.readsChildren] using hp
    rw [ReadRule, hstep]
    exact forall_mem_singleton.symm
  | binary op lhs rhs =>
    cases op with
    | assign => cases hp
    | _ => exact Iff.rfl
  | _ => exact Iff.rfl

lemma readable_iff_of_readsChildren (hp : form.readsChildren = true) :
    (mk lbl form).Readable tbl usage ↔ ∀ kid ∈ form.children, kid.Readable tbl .read :=
  readable_mk.trans (readRule_of_readsChildren hp)

lemma Readable.child {kid : Node} (h : node.Readable tbl usage) (hp : node.form.readsChildren = true)
    (hm : kid ∈ node.form.children) : kid.Readable tbl .read := by
  obtain ⟨lbl, form⟩ := node
  exact (readable_iff_of_readsChildren hp).mp h kid hm

lemma readable_unary {op : UnaryOp} {opd : Node} (hs : op.isStep = false) :
    (mk lbl (.unary op opd)).Readable tbl usage ↔ opd.Readable tbl .read :=
  (readable_iff_of_readsChildren (by simpa [Form.readsChildren] using hs)).trans forall_mem_singleton

lemma readable_binary {op : BinaryOp} {lhs rhs : Node} (ho : op ≠ .assign) :
    (mk lbl (.binary op lhs rhs)).Readable tbl usage ↔ lhs.Readable tbl .read ∧ rhs.Readable tbl .read := by
  rw [readable_iff_of_readsChildren (by simpa [Form.readsChildren] using ho), Form.children, forall_mem_cons,
    forall_mem_singleton]

lemma readable_of_var {sym : SymbolId} (h : node.form = .var sym) :
    node.Readable tbl usage ↔ usage.Readable tbl sym := by
  obtain ⟨lbl, form⟩ := node
  obtain rfl : form = .var sym := h
  exact readable_mk

lemma readable_erase : node.erase.Readable tbl usage ↔ node.Readable tbl usage := by
  induction node generalizing usage with
  | mk lbl form ih =>
    rw [erase_mk, readable_mk, readable_mk]
    have hkids : (∀ kid ∈ (form.map erase).children, kid.Readable tbl .read) ↔
        ∀ kid ∈ form.children, kid.Readable tbl .read := by
      rw [Form.children_map, forall_mem_map]
      exact forall₂_congr fun kid hc => ih kid hc
    cases form with
    | unary op opd => exact ih opd (.head _)
    | binary op lhs rhs =>
      cases op with
      | assign => exact and_congr (ih lhs (.head _)) (ih rhs (.tail _ (.head _)))
      | _ => exact hkids
    | var sym => exact Iff.rfl
    | _ => exact hkids

lemma Readable.of_alike {other : Node} (h : node.Readable tbl usage) (ha : node.Alike other) :
    other.Readable tbl usage := by
  rw [← readable_erase, ← ha, readable_erase]
  exact h

/-- Typed trees write only what can be written, and locals that they declare. -/
lemma Typed.isWritable (h : node.Typed tbl) {use : Use} (hu : use ∈ node.uses .read)
    (hw : use.usage.writes = true) :
    (tbl.get use.symbol).isWritable = true ∨ (tbl.get use.symbol).kind = .localVariable := by
  induction node with
  | mk lbl form ih =>
    have hrule := h.rule
    -- A variable that is written stands below the node that writes it.
    have htgt (tgt : Node) (usage : Usage) (ht : tgt.form.IsTarget tbl) (hm : use ∈ tgt.uses usage) :
        (tbl.get use.symbol).isWritable = true := by
      obtain ⟨targetLabel, targetForm⟩ := tgt
      obtain ⟨sym, hsym, hwritable⟩ := ht
      obtain rfl : targetForm = .var sym := Form.eq_var_of_var? hsym
      rw [uses_mk] at hm
      obtain rfl := mem_singleton.mp hm
      exact hwritable
    have hkid (inner : Node) (hc : inner ∈ form.children) (hm : use ∈ inner.uses .read) :=
      ih inner hc (h.child hc) hm
    have hkids (hm : use ∈ (form.map fun kid => (kid, kid.uses)).children.flatMap fun kid => kid.2 .read) :
        (tbl.get use.symbol).isWritable = true ∨ (tbl.get use.symbol).kind = .localVariable := by
      obtain ⟨pair, hp, hm⟩ := mem_flatMap.mp hm
      obtain ⟨inner, hc, rfl⟩ := Form.mem_children_map.mp hp
      exact hkid inner hc hm
    rw [uses_mk] at hu
    cases form with
    | var sym =>
      obtain rfl := mem_singleton.mp hu
      cases hw
    | declare sym init? =>
      rcases mem_append.mp hu with hu | hu
      · exact hkids hu
      · obtain rfl := mem_singleton.mp hu
        exact .inr hrule.1
    | unary op opd =>
      rw [Form.map, formUses] at hu
      split at hu
      · rename_i hs
        exact .inl (htgt opd _ (hrule.2.1 hs) hu)
      · exact hkid opd (.head _) hu
    | binary op lhs rhs =>
      cases op with
      | assign =>
        rcases mem_append.mp hu with hu | hu
        · exact .inl (htgt lhs _ (hrule.2.2.1 rfl) hu)
        · exact hkid rhs (.tail _ (.head _)) hu
      | _ => exact hkids hu
    | _ => exact hkids hu

end Node

end Shading
