import Shading.Proofs.Run.Equations
import Shading.Proofs.Simplify.Rule

/-!
# Types of values

Over words, an expression has a value of its type (`Node.type_value`).
-/

namespace Shading

variable {type : ValueType} {op : BinaryOp} {val a b : Value} {opd res : ValueType} {types : List ValueType}

namespace ValueType

lemma IsWord.isVector (h : type.IsWord) : type.isVector = false := by
  rcases h with rfl | rfl <;> rfl

end ValueType

/-! ## Operators -/

lemma UnaryOp.type_applyStep (op : UnaryOp) (val : Value) : (op.applyStep val).type = val.type := by
  rw [applyStep]
  cases h : stepped? op val with
  | none => rfl
  | some updated => exact stepped?_type h

/-- A word casts to every type of one word. -/
lemma Value.exists_cast (hv : val.type.IsWord) (ht : type.IsWord) : ∃ res, val.cast type.base = some res := by
  have hval : (∃ n, val = .int n) ∨ ∃ b, val = .bool b := hv.imp eq_int_of_type eq_bool_of_type
  rcases hval with ⟨n, rfl⟩ | ⟨b, rfl⟩ <;> rcases ht with rfl | rfl <;> exact ⟨_, rfl⟩

lemma UnaryOp.type_apply {op : UnaryOp} (hv : type.Valid)
    (ht : op.Takes val.type type) (hs : val.type.IsWord) (hw : type.IsWord) : (op.apply val type).type = type := by
  rw [apply]
  cases h : (op.fold val type).toOption with
  | some res => exact type_of_evaluate? hv ht h
  | none =>
    by_cases hcast : op = .cast
    · subst hcast
      obtain ⟨res, hresult⟩ := Value.exists_cast hs hw
      simp [fold, hw.isVector, hresult] at h
      cases h
    · obtain rfl : type = val.type := by
        cases op <;> first | exact ht.2 | exact absurd rfl hcast
      rfl

/-- An operation on words fails only as a division by zero. -/
lemma BinaryOp.fold_of_isWord (hop : op ≠ .assign)
    (hw : a.type.IsWord) (hab : a.type = b.type) (ht : op.Takes a.type type) :
    (∃ res, op.fold a b = .ok res) ∨ type = .int ∧ b = .int 0 ∧ op.fold a b = .error .divisionByZero := by
  rcases hw with hint | hbool
  · obtain ⟨m, rfl⟩ := Value.eq_int_of_type hint
    obtain ⟨n, rfl⟩ := Value.eq_int_of_type (hab.symm.trans hint)
    cases op <;> simp only [Takes, operatorClass] at ht <;> first
      | exact .inl ⟨_, rfl⟩
      | exact absurd rfl hop
      | (by_cases hn : n = 0
         · exact .inr ⟨ht.2.2, congrArg Value.int hn, if_pos hn⟩
         · exact .inl ⟨_, if_neg hn⟩)
      | exact absurd ht.1 (by simp; decide)
  · obtain ⟨m, rfl⟩ := Value.eq_bool_of_type hbool
    obtain ⟨n, rfl⟩ := Value.eq_bool_of_type (hab.symm.trans hbool)
    cases op <;> simp only [Takes, operatorClass] at ht <;> first
      | exact .inl ⟨_, rfl⟩
      | exact absurd rfl hop
      | exact absurd ht.1 (by simp; decide)

/-- No operator takes nothing. -/
lemma UnaryOp.Takes.isVoid {op : UnaryOp} (h : op.Takes opd res) : opd.isVoid = false := by
  rw [ValueType.isVoid, decide_eq_false_iff_not]
  intro hvoid
  cases op <;> simp [Takes, Parser.acceptsBase, ValueType.castsTo, ValueType.isVoid, hvoid] at h <;> cases h.1

lemma BinaryOp.Takes.isVoid (hop : op ≠ .assign) (h : op.Takes opd res) : opd.isVoid = false := by
  rw [ValueType.isVoid, decide_eq_false_iff_not]
  intro hvoid
  cases op <;> simp only [Takes, operatorClass, hvoid] at h <;> first
    | exact hop rfl
    | exact absurd h.1 (by decide)
    | (obtain ⟨rfl, -⟩ := h; cases hvoid)

lemma Interpretation.type_binary (sem : Interpretation)
    (hop : op ≠ .assign) (hw : a.type.IsWord) (hab : a.type = b.type) (ht : op.Takes a.type type) :
    (sem.binary op a b).type = type := by
  rw [binary]
  rcases BinaryOp.fold_of_isWord hop hw hab ht with ⟨res, h⟩ | ⟨rfl, -, h⟩
  · rw [h]
    exact BinaryOp.type_of_fold hab ht h
  · rw [h]
    rfl

/-! ## Calls -/

namespace Intrinsic

lemma types_of_foldlM_promote (hw : ∀ other ∈ type :: types, other.IsWord ∨ other = .void)
    (h : types.foldlM ValueType.promote type = some .int) : ∀ other ∈ type :: types, other = .int := by
  induction types generalizing type with
  | nil =>
    cases h
    simp
  | cons first rest ih =>
    rw [List.foldlM_cons] at h
    obtain ⟨common, hcommon, h⟩ := Option.bind_eq_some_iff.mp h
    have htype := hw type (.head _)
    have hfirst := hw first (.tail _ (.head _))
    have hrest := fun other hm => hw other (.tail _ (.tail _ hm))
    have hboth : type = .int ∧ first = .int ∧ common = .int := by
      rcases htype with (rfl | rfl) | rfl <;> rcases hfirst with (rfl | rfl) | rfl <;> cases hcommon
      exact ⟨rfl, rfl, rfl⟩
    obtain ⟨rfl, rfl, rfl⟩ := hboth
    have hall := ih (fun other hm => (List.mem_cons.mp hm).elim (fun heq => .inl (.inl heq)) (hrest other)) h
    intro other hm
    rcases List.mem_cons.mp hm with rfl | hm
    · rfl
    · exact hall other hm

/-- Over words, intrinsics take and give numbers. -/
lemma types_of_resolve {f : Intrinsic}
    (hw : ∀ other ∈ types, other.IsWord ∨ other = .void) (h : f.resolve types = some type) (ht : type.IsWord) :
    type = .int ∧ ∀ other ∈ types, other = .int := by
  unfold resolve at h
  split at h
  · cases h
  · split at h
    · cases h
    · rename_i common hcommon
      cases types with
      | nil => cases hcommon
      | cons first rest =>
        have hint : common = .int ∧ type = .int := by
          split at h
          · cases h
            rcases ht with rfl | rfl <;> simp_all [ValueType.int, ValueType.bool, ValueType.scalar]
          · cases h
            rcases ht with rfl | rfl <;> simp_all [ValueType.int, ValueType.bool, ValueType.scalar]
          · cases h
            split at ht
            · rename_i haccepts
              rw [if_pos haccepts]
              rcases ht with rfl | rfl
              · exact ⟨rfl, rfl⟩
              · simp_all [ValueType.bool, ValueType.scalar]
            · rcases ht with ht | ht <;> cases congrArg ValueType.base ht
          · cases h
          · cases h
        obtain ⟨rfl, rfl⟩ := hint
        exact ⟨rfl, types_of_foldlM_promote hw hcommon⟩

end Intrinsic

lemma Meaning.type_values {evaluators : List Evaluator}
    (h : ∀ val ∈ evaluators, ∀ σ, (val σ).1.type = type) (σ : Store) :
    ∀ val ∈ (values evaluators σ).1, val.type = type := by
  induction evaluators generalizing σ with
  | nil => simp [values]
  | cons first rest ih =>
    intro val hm
    rw [values] at hm
    rcases List.mem_cons.mp hm with rfl | hm
    · exact h first (.head _) σ
    · exact ih (List.forall_mem_cons.mp h).2 _ val hm

namespace Node

variable {sem : Interpretation} {tbl : SymbolTable} {lbl : Label}

/-- Words have no lanes to select. -/
lemma Typed.not_swizzle {obj : Node} {field : String} (ht : (mk lbl (.swizzle obj field)).Typed tbl)
    (hw : (mk lbl (.swizzle obj field)).Words tbl) : False := by
  obtain ⟨hobj, hvector⟩ := ht.rule
  rcases (Everywhere.here (hw.child (.head _))).1 hobj with hword | ⟨-, hvoid⟩
  · rw [hword.isVector] at hvector
    cases hvector
  · rw [hvoid] at hvector
    cases hvector

/-- An expression has a value of its type. -/
lemma type_value (sem : Interpretation) {node : Node} (ht : node.Typed tbl) (hw : node.Words tbl)
    (he : node.form.isExpression = true) (hn : node.type.IsWord) (σ : Store) :
    (node.value sem tbl σ).1.type = node.type := by
  induction node generalizing σ with
  | mk lbl form ih =>
    obtain ⟨⟨hvalid, hrule⟩, hkids⟩ := typed_mk.mp ht
    obtain ⟨-, hwords⟩ := words_mk.mp hw
    replace ih := fun kid hc => ih kid hc (hkids kid hc) (hwords kid hc)
    cases form with
    | immediate val =>
      rw [value_immediate]
      exact hrule.symm
    | var sym =>
      obtain ⟨-, -, htype⟩ := hrule
      rw [type_mk] at hn
      rw [value_var, type_mk, htype]
      exact Value.type_ofWord (htype ▸ hn) _
    | swizzle obj field => exact (ht.not_swizzle hw).elim
    | unary op opd =>
      obtain ⟨hopd, hvar, htakes⟩ := hrule
      have hword := (hwords opd (.head _)).isWord hopd htakes.isVoid
      have hval := ih opd (.head _) hopd hword
      rw [value_unary, Meaning.unary, type_mk]
      split
      · rename_i hstep
        obtain ⟨sym, hsym, -⟩ := hvar hstep
        have hform := Form.eq_var_of_var? hsym
        obtain ⟨operandLabel, operandForm⟩ := opd
        obtain rfl : operandForm = .var sym := hform
        have htype : lbl.type = operandLabel.type := by
          cases op <;> first | exact htakes.2 | cases hstep
        have hread := hval σ
        rw [value_var] at hread
        rw [Meaning.step, form_mk, htype]
        dsimp only
        split
        · exact (UnaryOp.type_applyStep _ _).trans hread
        · exact hread
      · have hread := hval σ
        refine UnaryOp.type_apply hvalid ?_ ?_ hn
        · rw [hread]
          exact htakes
        · rw [hread]
          exact hword
    | binary op lhs rhs =>
      obtain ⟨hl, hr, hvar, htypes, htakes⟩ := hrule
      have hleft := ih lhs (.head _) hl
      have hright := ih rhs (.tail _ (.head _)) hr
      rw [value_binary, type_mk]
      by_cases hasg : op = .assign
      · subst hasg
        have htype : lbl.type = rhs.type := Eq.trans htakes htypes
        rw [type_mk, htype] at hn
        rw [Meaning.binary, Meaning.assign, htype]
        dsimp only
        split <;> exact hright hn σ
      · have hword := (hwords lhs (.head _)).isWord hl (htakes.isVoid hasg)
        have ha := hleft hword
        have hb := hright (htypes ▸ hword)
        have hoperation : ∀ a b : Value, a.type = lhs.type → b.type = rhs.type →
            (sem.binary op a b).type = lbl.type := by
          intro a b ha hb
          refine sem.type_binary hasg (ha ▸ hword) ?_ (ha ▸ htakes)
          rw [ha, hb, htypes]
        have hlog : op = .and ∨ op = .or → lbl.type = .bool ∧ rhs.type = .bool := by
          rintro (rfl | rfl) <;> exact ⟨htakes.2, htypes ▸ htakes.1⟩
        cases op with
        | assign => exact absurd rfl hasg
        | and =>
          obtain ⟨htype, hrtype⟩ := hlog (.inl rfl)
          rw [Meaning.binary, htype]
          dsimp only
          split
          · rw [hb, hrtype]
          · rfl
        | or =>
          obtain ⟨htype, hrtype⟩ := hlog (.inr rfl)
          rw [Meaning.binary, htype]
          dsimp only
          split
          · rfl
          · rw [hb, hrtype]
        | _ => exact hoperation _ _ (ha σ) (hb _)
    | call callee args =>
      obtain ⟨harguments, htype⟩ := hrule
      rw [type_mk] at hn ⊢
      rw [value_call, Meaning.call]
      dsimp only
      split
      · rename_i f hkind
        rw [Parser.callType?, hkind, Option.some.injEq] at htype
        cases hres : f.resolve (args.map (·.type)) with
        | none =>
          rw [hres, Option.getD_none] at htype
          rw [← htype] at hn
          exact absurd hn (by decide)
        | some type =>
          rw [hres, Option.getD_some] at htype
          subst htype
          have htypes : ∀ other ∈ args.map (·.type), other.IsWord ∨ other = .void := by
            intro other hm
            obtain ⟨arg, ha, rfl⟩ := List.mem_map.mp hm
            exact ((Everywhere.here (hwords arg ha)).1 (harguments arg ha)).imp_right (·.2)
          obtain ⟨hint, hints⟩ := Intrinsic.types_of_resolve htypes hres hn
          rw [hint]
          cases hval : f.evaluate _ with
          | none => rfl
          | some val =>
            refine Intrinsic.type_of_evaluate (Meaning.type_values (fun evaluator hm σ => ?_) σ) hval
            obtain ⟨arg, ha, rfl⟩ := List.mem_map.mp hm
            have hargument := hints _ (List.mem_map_of_mem ha)
            rw [ih arg ha (harguments arg ha) (.inl hargument), hargument]
      · exact Value.type_ofWord hn _
    | _ => cases he

end Node

end Shading
