import Shading.Proofs.Run.Equations

/-!
# What runs leave alone

A run changes no local but those written below the node
(`Node.keeps_value`, `Node.keeps_run`), and a pure expression changes nothing
(`Node.store_of_isPure`).  Both are runs in related stores, which are the same
and have come from the first one by what is allowed.
-/

namespace Shading

variable {tbl : SymbolTable} {sem : Interpretation} {node : Node}

/-! ## Nodes that are alike -/

section

variable {r : Store → Store → Prop}

lemma Meaning.Alike.trans (refl : ∀ σ, r σ σ) (trans : ∀ {a b c}, r a b → r b c → r a c)
    {first second third : Meaning}
    (h : Alike r first second) (h' : Alike r second third) : Alike r first third := by
  have hoption {α : Type} {p q : α → α → Prop} (hpq : ∀ x y z, p x y → p y z → q x z) {x y z : Option α}
    (hxy : Option.Rel p x y) (hyz : Option.Rel p y z) : Option.Rel q x z := by
    cases hxy with
    | none =>
      cases hyz with
      | none => exact .none
    | some hxy =>
      cases hyz with
      | some hyz => exact .some (hpq _ _ _ hxy hyz)
  have hval (val value' value'' : Evaluator) (h : EvaluatesAlike r val value')
    (h' : EvaluatesAlike r value' value'') : EvaluatesAlike r val value'' :=
    fun a b hab => ⟨(h hab).1.trans (h' (refl b)).1, trans (h hab).2 (h' (refl b)).2⟩
  have hrun {run run' run'' : Runner} (h : RunsAlike r run run') (h' : RunsAlike r run' run'') :
      RunsAlike r run run'' :=
    fun k a b hab => hoption (fun _ _ _ hxy hyz => ⟨hxy.1.trans hyz.1, trans hxy.2 hyz.2⟩) (h hab) (h' (refl b))
  exact ⟨hval _ _ _ h.value h'.value, hrun h.run h'.run,
    hoption (fun _ _ _ hxy hyz => ⟨hoption hval hxy.1 hyz.1, hrun hxy.2 hyz.2⟩) h.arm h'.arm⟩

variable {other : Node}

lemma Node.ActsAlike.of_value (hn : node.form.isExpression = true) (ho : other.form.isExpression = true)
    (h : EvaluatesAlike r (node.value sem tbl) (other.value sem tbl)) :
    node.ActsAlike tbl r sem other := by
  have harm {node : Node} (he : node.form.isExpression = true) : (node.meaning sem tbl).arm? = none := by
    obtain ⟨lbl, form⟩ := node
    rw [meaning_mk]
    cases form <;> first | rfl | cases he
  have hrun : RunsAlike r (node.run sem tbl) (other.run sem tbl) := by
    rw [run_expression hn, run_expression ho]
    exact fun _ _ _ hab => .some ⟨rfl, (h hab).2⟩
  exact ⟨h, hrun, by rw [harm hn, harm ho]; exact .none⟩

lemma Node.ActsAlike.of_run (hn : node.form.isExpression = false) (ha : node.form.isArm = false)
    (ho : other.form.isExpression = false)
    (hb : other.form.isArm = false) (h : RunsAlike r (node.run sem tbl) (other.run sem tbl)) :
    node.ActsAlike tbl r sem other := by
  have hstmt {node : Node} (he : node.form.isExpression = false) (ha : node.form.isArm = false) :
      (node.meaning sem tbl).value = (fun σ => (.int 0, σ)) ∧ (node.meaning sem tbl).arm? = none := by
    obtain ⟨lbl, form⟩ := node
    rw [meaning_mk]
    cases form <;> first | exact ⟨rfl, rfl⟩ | cases (he : true = false) | cases (ha : true = false)
  obtain ⟨hval, harm⟩ := hstmt hn ha
  obtain ⟨hvalue', harm'⟩ := hstmt ho hb
  refine ⟨?_, h, by rw [harm, harm']; exact .none⟩
  rw [hval, hvalue']
  exact fun _ _ hab => ⟨rfl, hab⟩

end

/-! ## Locals that are not written -/

/-- Locals outside a list are the same in two stores. -/
def Store.Keeps (table : SymbolTable) (written : List SymbolId) (before after : Store) : Prop :=
  ∀ sym, (table.get sym).isLocal = true → sym ∉ written → after.locals sym = before.locals sym

namespace Store

variable {written : List SymbolId} {σ a b c : Store} {sym : SymbolId}

lemma read_of_isLocal (h : (tbl.get sym).isLocal = true) :
    σ.read tbl sym = .ofWord (tbl.get sym).type (σ.locals sym) := by
  rw [read, cell]
  rw [Symbol.isLocal] at h
  split at h <;> rename_i hkind
  · rw [hkind]
  · rw [hkind]
  · cases h

lemma write_of_isLocal (h : (tbl.get sym).isLocal = true) (val : Value) :
    σ.write tbl sym val = { σ with locals := Function.update σ.locals sym val.word } := by
  rw [write]
  rw [Symbol.isLocal] at h
  split at h <;> rename_i hkind
  · rw [hkind]
  · rw [hkind]
  · cases h

lemma locals_write_of_ne {other : SymbolId} (h : other ≠ sym) (val : Value) :
    (σ.write tbl sym val).locals other = σ.locals other := by
  rw [write]
  split
  · rfl
  · exact Function.update_of_ne h ..

lemma read_write_self {val : Value} (h : (tbl.get sym).isLocal = true)
    (hw : (tbl.get sym).type.IsWord) (hv : val.type = (tbl.get sym).type) :
    (σ.write tbl sym val).read tbl sym = val := by
  rw [read_of_isLocal h, write_of_isLocal h]
  change Value.ofWord _ (Function.update σ.locals sym val.word sym) = val
  rw [Function.update_self, Value.ofWord_word hw hv]

namespace Keeps

lemma refl (σ : Store) : Keeps tbl written σ σ := fun _ _ _ => rfl

lemma trans (hab : Keeps tbl written a b) (hbc : Keeps tbl written b c) : Keeps tbl written a c :=
  fun sym hl hw => (hbc sym hl hw).trans (hab sym hl hw)

lemma write (hm : sym ∈ written) (σ : Store) (val : Value) : Keeps tbl written σ (σ.write tbl sym val) := by
  intro other _ hw
  refine locals_write_of_ne ?_ val
  rintro rfl
  exact hw hm

lemma read_eq (h : Keeps tbl written a b) (hl : (tbl.get sym).isLocal = true) (hw : sym ∉ written) :
    b.read tbl sym = a.read tbl sym := by
  rw [read_of_isLocal hl, read_of_isLocal hl, h sym hl hw]

end Keeps

end Store

namespace Node

/-- A node writes no other local than those written below it. -/
lemma respects_keeps {written : List SymbolId} (first : Store) (h : ∀ sym ∈ node.assigned .read, sym ∈ written) :
    node.Respects tbl fun a b => a = b ∧ first.Keeps tbl written a := by
  induction node with
  | mk lbl form ih =>
    have hwrite (sym : SymbolId) (hm : sym ∈ (mk lbl form).assigned .read) :
        WritesAlike tbl (fun a b => a = b ∧ first.Keeps tbl written a) sym := by
      rintro a _ ⟨rfl, hkeeps⟩ val
      exact ⟨rfl, hkeeps.trans (.write (h sym hm) a val)⟩
    have hread (sym : SymbolId) : ReadsAlike tbl (fun a b => a = b ∧ first.Keeps tbl written a) sym := by
      rintro a _ ⟨rfl, -⟩
      rfl
    refine .mk ?_ fun kid hc => ?_
    · cases form with
      | var sym => exact hread sym
      | declare sym init? => exact hwrite sym (mem_assigned_declare ..)
      | unary op opd => exact fun hstep sym hvar =>
        ⟨hread sym, hwrite sym (mem_assigned_step hstep (Form.eq_var_of_var? hvar))⟩
      | binary op lhs rhs =>
        rintro rfl sym hvar
        exact hwrite sym (mem_assigned_assign (Form.eq_var_of_var? hvar))
      | call callee args =>
        rintro - a _ ⟨rfl, hkeeps⟩
        exact ⟨rfl, fun mem => ⟨rfl, hkeeps⟩⟩
      | _ => exact trivial
    · exact ih kid (Form.mem_children_of_evaluated hc) fun sym hm => h sym (mem_assigned_of_evaluated hc hm)

lemma keeps_value (node : Node) (σ : Store) : σ.Keeps tbl (node.assigned .read) (node.value sem tbl σ).2 :=
  ((respects_keeps σ fun _ hm => hm).alike.value ⟨rfl, .refl σ⟩).2.2

lemma keeps_run {k : Nat} {σ last : Store} {completion : Completion}
    (h : node.run sem tbl k σ = some (completion, last)) : σ.Keeps tbl (node.assigned .read) last := by
  have hruns : RunsAlike (fun a b => a = b ∧ σ.Keeps tbl (node.assigned .read) a) (node.run sem tbl)
      (node.run sem tbl) := (respects_keeps σ fun _ hm => hm).alike.run
  exact (@hruns k σ σ ⟨rfl, .refl σ⟩).eq.2 h

/-! ## Pure expressions -/

/-- A pure expression leaves the store as it is. -/
lemma store_of_isPure (ht : node.Typed tbl) (h : node.isPure tbl = true) (σ : Store) :
    (node.value sem tbl σ).2 = σ := by
  have hrespects : node.Respects tbl fun a b => a = b ∧ a = σ := by
    induction node with
    | mk lbl form ih =>
      rw [isPure_mk, Bool.and_eq_true, List.all_eq_true] at h
      obtain ⟨hpure, hkids⟩ := h
      refine .mk ?_ fun kid hc => ?_
      · cases form with
        | var sym =>
          rintro a _ ⟨rfl, -⟩
          rfl
        | unary op opd =>
          intro hstep
          simp [Form.isPureOperation, hstep] at hpure
        | binary op lhs rhs => exact fun hop => absurd hop (of_decide_eq_true hpure)
        | call callee args =>
          intro hkind
          have hcall := ht.rule.2
          simp only [Form.isPureOperation, Symbol.isFunction, Bool.not_eq_true'] at hpure
          rw [Parser.callType?] at hcall
          cases hcallee : (tbl.get callee).kind with
          | intrinsic f => exact absurd hcallee (hkind f)
          | function signature =>
            rw [hcallee] at hpure
            cases hpure
          | _ =>
            rw [hcallee] at hcall
            cases hcall
        | immediate val | swizzle obj field => exact trivial
        | _ => cases hpure
      · have hkid := Form.mem_children_of_evaluated hc
        exact ih kid hkid (ht.child hkid) (hkids kid hkid)
  exact (hrespects.alike.value ⟨rfl, rfl⟩).2.2

end Node

end Shading
