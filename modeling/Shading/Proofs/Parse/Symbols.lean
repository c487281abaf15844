import Shading.Proofs.Tree.Scope

/-!
# Symbol tables while a source is read

A table only grows: `SymbolTable.Extends` says that what a number stood for it
stands for ever after.  `SymbolTable.WellFormed` holds of every table on the
way; `SymbolTable.locals` lists the locals that are in scope.
-/

namespace Shading

open List

variable {tbl : SymbolTable} {id : SymbolId}

/-- Variables have a value, and functions the type of their result. -/
def Symbol.WellFormed (sym : Symbol) : Prop :=
  match sym.kind with
  | .localVariable | .parameter | .member .. => sym.type.Valid ∧ sym.type.isVoid = false
  | .function signature =>
    sym.type = signature.result ∧ signature.result.Valid ∧
      ∀ type ∈ signature.parameters, type.Valid ∧ type.isVoid = false
  | .intrinsic _ => True

lemma Symbol.WellFormed.of_isVariable {sym : Symbol} (h : sym.WellFormed)
    (hv : sym.isVariable = true) : sym.type.Valid ∧ sym.type.isVoid = false := by
  rw [WellFormed] at h
  rw [isVariable] at hv
  cases hk : sym.kind <;> simp_all

lemma Symbol.WellFormed.valid_of_isFunction {sym : Symbol} (h : sym.WellFormed)
    (hf : sym.isFunction = true) : sym.type.Valid := by
  rw [WellFormed] at h
  rw [isFunction] at hf
  cases hk : sym.kind <;> simp_all

/-- What a name resolves to is one of the entries. -/
lemma mem_of_lookup_eq_some {α β : Type} [BEq α] {entries : List (α × β)} {key : α} {val : β}
    (h : entries.lookup key = some val) : val ∈ entries.map Prod.snd := by
  induction entries with
  | nil => cases h
  | cons entry rest ih =>
    obtain ⟨k, v⟩ := entry
    rw [lookup_cons] at h
    split at h
    · cases h
      exact mem_cons_self ..
    · exact mem_cons_of_mem _ (ih h)

namespace SymbolTable

/-- Symbols that names can stand for. -/
def visible (table : SymbolTable) : List SymbolId :=
  (table.inner ++ [table.outer]).flatMap fun scope => scope.map Prod.snd

/-- Locals that names can stand for. -/
def locals (table : SymbolTable) : List SymbolId :=
  table.visible.filter fun id => (table.get id).isLocal

structure WellFormed (table : SymbolTable) : Prop where
  bound : ∀ id ∈ table.visible, id.index < table.size
  symbol : ∀ id : SymbolId, id.index < table.size → (table.get id).WellFormed
  outer : ∀ id ∈ table.outer.map Prod.snd, (table.get id).isLocal = false

/-- What a number stands for in one table it stands for in the other. -/
structure Extends (table later : SymbolTable) : Prop where
  size_le : table.size ≤ later.size
  get_eq : ∀ id : SymbolId, id.index < table.size → later.get id = table.get id
  result_eq : later.result? = table.result?
  /-- Members of the layout come first. -/
  not_member : ∀ id : SymbolId, table.size ≤ id.index → ∀ offset access,
    (later.get id).kind ≠ .member offset access

namespace Extends

variable {a b c : SymbolTable}

lemma get_of_size_le (h : tbl.size ≤ id.index) : tbl.get id = .absent := by
  rw [get, Table.get?, Array.getElem?_eq_none h]
  rfl

lemma refl (tbl : SymbolTable) : tbl.Extends tbl := by
  refine ⟨Nat.le_refl _, fun _ _ => rfl, rfl, fun id h off access => ?_⟩
  rw [get_of_size_le h]
  exact nofun

lemma trans (hab : a.Extends b) (hbc : b.Extends c) : a.Extends c := by
  refine ⟨Nat.le_trans hab.size_le hbc.size_le, fun id h => ?_, hbc.result_eq.trans hab.result_eq,
    fun id h off access => ?_⟩
  · rw [hbc.get_eq id (Nat.lt_of_lt_of_le h hab.size_le), hab.get_eq id h]
  · by_cases hb : id.index < b.size
    · rw [hbc.get_eq id hb]
      exact hab.not_member id h off access
    · exact hbc.not_member id (Nat.le_of_not_lt hb) off access

end Extends

/-! ## Scopes -/

@[simp] lemma get_openScope (tbl : SymbolTable) (id : SymbolId) : tbl.openScope.get id = tbl.get id := rfl

@[simp] lemma locals_openScope (tbl : SymbolTable) : tbl.openScope.locals = tbl.locals := rfl

lemma mem_visible_of_mem_closeScope (h : id ∈ tbl.closeScope.visible) : id ∈ tbl.visible := by
  rw [visible, mem_flatMap] at h ⊢
  obtain ⟨Γ, hs, hid⟩ := h
  refine ⟨Γ, ?_, hid⟩
  rw [mem_append] at hs ⊢
  exact hs.imp_left mem_of_mem_tail

lemma WellFormed.openScope (h : tbl.WellFormed) : tbl.openScope.WellFormed :=
  ⟨h.bound, h.symbol, h.outer⟩

lemma WellFormed.closeScope (h : tbl.WellFormed) : tbl.closeScope.WellFormed :=
  ⟨fun id hid => h.bound id (mem_visible_of_mem_closeScope hid), h.symbol, h.outer⟩

lemma Extends.openScope (tbl : SymbolTable) : tbl.Extends tbl.openScope :=
  let h := Extends.refl tbl
  ⟨h.size_le, h.get_eq, rfl, h.not_member⟩

lemma Extends.closeScope (tbl : SymbolTable) : tbl.Extends tbl.closeScope :=
  let h := Extends.refl tbl
  ⟨h.size_le, h.get_eq, rfl, h.not_member⟩

lemma mem_visible_of_lookup {name : String} (h : tbl.lookup name = some id) : id ∈ tbl.visible := by
  rw [lookup, findSome?_eq_some_iff] at h
  obtain ⟨pre, Γ, after, heq, hscope, -⟩ := h
  rw [visible, heq, mem_flatMap]
  exact ⟨Γ, by simp, mem_of_lookup_eq_some hscope⟩

lemma mem_locals : id ∈ tbl.locals ↔ id ∈ tbl.visible ∧ (tbl.get id).isLocal = true := by
  rw [locals, mem_filter]

/-! ## Declarations -/

section

variable (tbl : SymbolTable) (sym : Symbol)

@[simp] lemma declare_fst : (tbl.declare sym).1 = ⟨tbl.size⟩ := by
  rw [declare]
  cases tbl.inner <;> rfl

@[simp] lemma symbols_declare : (tbl.declare sym).2.symbols = tbl.symbols.push sym := by
  rw [declare]
  cases tbl.inner <;> rfl

@[simp] lemma result?_declare : (tbl.declare sym).2.result? = tbl.result? := by
  rw [declare]
  cases tbl.inner <;> rfl

@[simp] lemma size_declare : (tbl.declare sym).2.size = tbl.size + 1 := by
  rw [size, symbols_declare, Table.size_push]
  rfl

lemma get_declare_new : (tbl.declare sym).2.get ⟨tbl.size⟩ = sym := by
  rw [get, symbols_declare, size, Table.get?_push_same]
  rfl

lemma get_declare_old (h : id.index < tbl.size) : (tbl.declare sym).2.get id = tbl.get id := by
  rw [get, symbols_declare, Table.get?_push_other _ _ _ (Nat.ne_of_lt h)]
  rfl

lemma mem_visible_declare : id ∈ (tbl.declare sym).2.visible ↔ id = ⟨tbl.size⟩ ∨ id ∈ tbl.visible := by
  rw [visible, visible, declare]
  cases hi : tbl.inner <;> simp [size]

lemma inner_declare_tail : (tbl.declare sym).2.inner.tail = tbl.inner.tail := by
  rw [declare]
  cases tbl.inner <;> simp

lemma outer_declare_of_inner {Γ : Scope} {rest : List Scope} (h : tbl.inner = Γ :: rest) :
    (tbl.declare sym).2.outer = tbl.outer := by
  rw [declare, h]

end

variable {tbl : SymbolTable} {sym : Symbol}

lemma Extends.declare (hk : ∀ off access, sym.kind ≠ .member off access) : tbl.Extends (tbl.declare sym).2 := by
  refine ⟨?_, fun id h => get_declare_old tbl sym h, result?_declare tbl sym, fun id h off access => ?_⟩
  · rw [size_declare]
    exact Nat.le_succ _
  · rcases Nat.lt_or_eq_of_le h with hlt | heq
    · rw [get_of_size_le (by rw [size_declare]; exact hlt)]
      exact nofun
    · have : id = ⟨tbl.size⟩ := by cases id; simp_all
      rw [this, get_declare_new]
      exact hk off access

/-- A new symbol keeps a table well-formed; locals are not declared outside of
all functions. -/
lemma WellFormed.declare (h : tbl.WellFormed) (hs : sym.WellFormed)
    (ho : tbl.inner = [] → sym.isLocal = false) : (tbl.declare sym).2.WellFormed := by
  have hlt {id : SymbolId} (hid : id.index < (tbl.declare sym).2.size) (hne : id ≠ ⟨tbl.size⟩) :
      id.index < tbl.size := by
    rw [size_declare] at hid
    have : id.index ≠ tbl.size := fun heq => hne (by cases id; simp_all)
    omega
  refine ⟨fun id hid => ?_, fun id hid => ?_, fun id hid => ?_⟩
  · rw [size_declare]
    rcases (mem_visible_declare tbl sym).mp hid with rfl | hid
    · exact Nat.lt_succ_self _
    · exact Nat.lt_succ_of_lt (h.bound id hid)
  · by_cases heq : id = ⟨tbl.size⟩
    · rw [heq, get_declare_new]
      exact hs
    · rw [get_declare_old _ _ (hlt hid heq)]
      exact h.symbol id (hlt hid heq)
  · have hold : id ∈ tbl.outer.map Prod.snd → ((tbl.declare sym).2.get id).isLocal = false := by
      intro hm
      rw [get_declare_old _ _ (h.bound id (by rw [visible]; simp_all))]
      exact h.outer id hm
    cases hi : tbl.inner with
    | cons Γ rest =>
      rw [outer_declare_of_inner tbl sym hi] at hid
      exact hold hid
    | nil =>
      have houter : (tbl.declare sym).2.outer = (sym.name, ⟨tbl.size⟩) :: tbl.outer := by
        rw [SymbolTable.declare, hi]
        rfl
      rw [houter, map_cons, mem_cons] at hid
      rcases hid with rfl | hid
      · rw [get_declare_new]
        exact ho hi
      · exact hold hid

end SymbolTable

end Shading
