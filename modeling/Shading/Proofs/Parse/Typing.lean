import Shading.Proofs.Parse.Stream

/-!
# Nodes are typed and in scope

`Node.ReadUnder` says of an expression that its types fit and its locals are in
scope, under the table it was read with and every table that extends it.  Each
way to make a node keeps this.
-/

namespace Shading

open ValueType Option

variable {tgt type : ValueType} {lbl : Label} {span : Span} {val : Value} {opd : Node} {op : BinaryOp}
  {form : Form Node} {field : String} {tbl : SymbolTable} {lhs rhs : Node} {res : Value} {src obj : ValueType}

/-! ## What is read -/

/-- An expression that fits the table it was read with and all later ones. -/
structure Node.ReadUnder (table : SymbolTable) (node : Node) : Prop where
  isExpression : node.form.isExpression = true
  typed : ∀ later, table.Extends later → node.Typed later
  inScope : ∀ later, table.Extends later → node.Scoped later table.locals

namespace Node.ReadUnder

variable {node : Node}

lemma of_alike {other : Node} (h : node.ReadUnder tbl) (hn : node.Alike other) : other.ReadUnder tbl := by
  refine ⟨?_, fun later hl => (h.typed later hl).of_alike hn, fun later hl => (h.inScope later hl).of_alike hn⟩
  · rw [← Form.isExpression_map erase, ← hn.form_map_eq, Form.isExpression_map]
    exact h.isExpression

lemma valid (h : node.ReadUnder tbl) : node.type.Valid := (h.typed tbl (.refl tbl)).valid

lemma type_of_immediate? (h : node.ReadUnder tbl) (hv : node.immediate? = some val) : node.type = val.type := by
  have hrule := (h.typed tbl (.refl tbl)).rule
  obtain ⟨lbl, form⟩ := node
  cases form <;> cases hv
  exact hrule

/-- An operation on expressions is one if its types fit. -/
lemma of_form (he : form.isExpression = true) (hv : form.var? = none)
    (hvalid : lbl.type.Valid) (hrule : ∀ later, tbl.Extends later → FormRule later lbl.type form)
    (hc : ∀ kid ∈ form.children, kid.ReadUnder tbl) : (Node.mk lbl form).ReadUnder tbl := by
  refine ⟨he, fun later hl => ?_, fun later hl => ?_⟩
  · exact typed_mk.mpr ⟨⟨hvalid, hrule later hl⟩, fun kid hm => (hc kid hm).typed later hl⟩
  · rw [scoped_mk]
    have hall : ∀ kid ∈ form.children, kid.Scoped later tbl.locals :=
      fun kid hm => (hc kid hm).inScope later hl
    cases form <;> first | exact hall | (cases he; done) | cases hv

lemma immediate (h : lbl.type = val.type) : (Node.mk lbl (.immediate val)).ReadUnder tbl := by
  refine of_form rfl rfl ?_ (fun _ _ => h) (by simp [Form.children])
  rw [h]
  exact valid_scalar _

lemma unary {op : UnaryOp} (h : opd.ReadUnder tbl)
    (hv : lbl.type.Valid) (hstep : op.isStep = true → ∀ later, tbl.Extends later → opd.form.IsTarget later)
    (ht : op.Takes opd.type lbl.type) : (Node.mk lbl (.unary op opd)).ReadUnder tbl :=
  of_form rfl rfl hv (fun later hl => ⟨h.isExpression, fun hs => hstep hs later hl, ht⟩)
    (by simpa [Form.children] using h)

lemma binary (hl : lhs.ReadUnder tbl) (hr : rhs.ReadUnder tbl) (hv : lbl.type.Valid)
    (ha : op = .assign → ∀ later, tbl.Extends later → lhs.form.IsTarget later) (heq : lhs.type = rhs.type)
    (ht : op.Takes lhs.type lbl.type) : (Node.mk lbl (.binary op lhs rhs)).ReadUnder tbl :=
  of_form rfl rfl hv (fun later hlater => ⟨hl.isExpression, hr.isExpression, fun hop =>
    ha hop later hlater, heq, ht⟩) (by simpa [Form.children] using ⟨hl, hr⟩)

lemma var {id : SymbolId} (hw : tbl.WellFormed) (hid : id ∈ tbl.visible)
    (hv : (tbl.get id).isVariable = true) (ht : lbl.type = (tbl.get id).type) :
    (Node.mk lbl (.var id)).ReadUnder tbl := by
  have hget := fun (later : SymbolTable) (hl : tbl.Extends later) => hl.get_eq id (hw.bound id hid)
  have hsym := (hw.symbol id (hw.bound id hid)).of_isVariable hv
  refine ⟨rfl, fun later hl => ?_, fun later hl => ?_⟩
  · refine typed_mk.mpr ⟨⟨?_, ?_⟩, by simp [Form.children]⟩
    · rw [ht]
      exact hsym.1
    · rw [FormRule, hget later hl, ht]
      exact ⟨hv, hsym.2, rfl⟩
  · rw [scoped_mk, ScopeRule, hget later hl]
    exact fun hlocal => SymbolTable.mem_locals.mpr ⟨hid, hlocal⟩

/-- What can be written still can under later tables. -/
lemma isTarget (h : node.ReadUnder tbl) (ht : node.form.IsTarget tbl) (later : SymbolTable)
    (hl : tbl.Extends later) : node.form.IsTarget later := by
  obtain ⟨sym, hsym, hwritable⟩ := ht
  have hrule := (h.typed tbl (.refl tbl)).rule
  rw [Form.eq_var_of_var? hsym] at hrule
  obtain ⟨-, hvoid, htype⟩ := hrule
  refine ⟨sym, hsym, ?_⟩
  by_cases hbound : sym.index < tbl.size
  · rw [hl.get_eq sym hbound]
    exact hwritable
  · rw [htype, SymbolTable.Extends.get_of_size_le (Nat.le_of_not_lt hbound)] at hvoid
    cases hvoid

end Node.ReadUnder

namespace Value

lemma base_cast {base : Base} (h : val.cast base = some res) : res.base = base := by
  cases val <;> cases base <;> cases h <;> rfl

/-- A literal that is converted has the type it is converted to. -/
lemma type_cast (h : val.cast type.base = some res) (hlanes : type.lanes = 1) : res.type = type := by
  rw [Value.type, base_cast h, scalar, ← hlanes]

end Value

lemma length_of_mapM_eq_some {α β : Type} {f : α → Option β} {as : List α} {bs : List β}
    (h : as.mapM f = some bs) : bs.length = as.length := by
  induction as generalizing bs with
  | nil =>
    cases h
    rfl
  | cons a rest ih =>
    simp only [List.mapM_cons, pure_def, bind_eq_bind, bind_eq_some_iff, some.injEq] at h
    obtain ⟨b, -, others, hrest, rfl⟩ := h
    rw [List.length_cons, List.length_cons, ih hrest]

namespace ValueType

lemma castsTo_of_convertsTo (hne : src ≠ tgt) (h : src.convertsTo tgt = true) : src.castsTo tgt = true := by
  simp only [convertsTo, hne, decide_false, Bool.false_or, Bool.and_eq_true, decide_eq_true_eq] at h
  simp only [castsTo, isVoid, h.1, decide_true, Bool.true_and]
  cases hs : src.base <;> cases ht : tgt.base <;> simp_all [widens]

lemma lanes_eq_of_convertsTo (h : src.convertsTo tgt = true) : src.lanes = tgt.lanes := by
  simp only [convertsTo, Bool.or_eq_true, Bool.and_eq_true, decide_eq_true_eq] at h
  rcases h with rfl | h
  · rfl
  · exact h.1

lemma length_swizzleLanes {lanes : List Nat} (h : swizzleLanes field = some lanes) :
    1 ≤ lanes.length ∧ lanes.length ≤ maxLanes := by
  simp only [swizzleLanes, ite_none_left_eq_some] at h
  obtain ⟨hletters, hfind⟩ := h
  obtain ⟨_, names, _, _, hmap, _⟩ := List.findSome?_eq_some_iff.mp hfind
  rw [length_of_mapM_eq_some hmap]
  simp only [Bool.or_eq_true, decide_eq_true_eq, not_or, Nat.not_lt, List.isEmpty_iff] at hletters
  exact ⟨List.length_pos_iff.mpr hletters.1, hletters.2⟩

lemma valid_ofText? {text : String} (h : ofText? text = some type) : type.Valid := by
  unfold ofText? at h
  dsimp only at h
  split at h
  · cases h
  · split at h
    · cases h
      exact valid_scalar _
    · split at h
      · split at h
        · rename_i hcond
          cases h
          simp only [Bool.and_eq_true, decide_eq_true_eq] at hcond
          refine ⟨Nat.le_of_succ_le hcond.1.1, hcond.1.2, fun hvoid => ?_⟩
          exact absurd (of_decide_eq_true hvoid) hcond.2
        · cases h
      · cases h

lemma isVector_of_swizzleType (h : swizzleType obj field = some type) : obj.isVector = true := by
  unfold swizzleType at h
  split at h
  · split at h
    · rename_i hvector
      exact (Bool.and_eq_true _ _ ▸ hvector).1
    · cases h
  · cases h

lemma valid_swizzleType (hv : obj.Valid) (h : swizzleType obj field = some type) : type.Valid := by
  unfold swizzleType at h
  split at h
  · rename_i lanes hlanes
    split at h
    · rename_i hvector
      cases h
      rw [Bool.and_eq_true, isVector, decide_eq_true_eq] at hvector
      have hlen := length_swizzleLanes hlanes
      refine ⟨hlen.1, hlen.2, fun hvoid => ?_⟩
      exact absurd (hv.2.2 hvoid) (Nat.ne_of_gt hvector.1)
    · cases h
  · cases h

end ValueType

/-! ## Making nodes -/

namespace Parser

variable {may : Span → Prop} {old : List Node}

/-- A node is made that is an expression, if the table is well-formed. -/
abbrev Makes (allowed : Span → Prop) (table : SymbolTable) (old : List Node) (parser : Parser Node) : Prop :=
  Gives allowed table old parser (fun node => [node]) fun node => table.WellFormed → node.ReadUnder table

/-- The expression is of a given type. -/
abbrev MakesOf (type : ValueType) (allowed : Span → Prop) (table : SymbolTable) (old : List Node)
    (parser : Parser Node) : Prop :=
  Gives allowed table old parser (fun node => [node]) fun node => table.WellFormed → node.ReadUnder table ∧
    node.type = type

lemma Yields.untyped {parser : Parser Node} (h : MakesOf type may tbl old parser) : Makes may tbl old parser :=
  h.imp fun _ _ h => ⟨h.1, fun hw => (h.2 hw).1⟩

section

variable (form : Form Node) (hspan : may span)
  (h : tbl.WellFormed → ∀ id, (Node.mk ⟨id, none, type, span⟩ form).ReadUnder tbl)

include hspan h

lemma makeTyped_gives : MakesOf type may tbl form.children (makeNode form type span) := by
  refine (Yields.node form type hspan).imp ?_
  rintro _ _ ⟨rfl, id, rfl⟩
  exact ⟨rfl, fun hw => ⟨(h hw id).of_alike (.create _ _ _ _ rfl), rfl⟩⟩

lemma makeNode_gives : Makes may tbl form.children (makeNode form type span) :=
  .untyped (makeTyped_gives form hspan h)

end

lemma coerce_gives (hr : tbl.WellFormed → opd.ReadUnder tbl) (hv : tbl.WellFormed → tgt.Valid) :
    MakesOf tgt may tbl [opd] (coerce opd tgt) := by
  refine .given fun hnode => ?_
  unfold coerce
  split
  · rename_i heq
    exact .pure rfl ⟨rfl, fun hw => ⟨hr hw, heq⟩⟩
  rename_i hne
  split
  · exact .fail (hnode opd (.head _)).span
  rename_i hconv
  rw [Bool.not_eq_true', Bool.not_eq_false] at hconv
  split
  · rename_i val hval
    intro st hs hstate hold
    have hrebuilt : Rebuilt st.nodeCount st.nodeCount [opd] [opd.toImmediate val] := .toImmediate opd val
    refine ⟨⟨hrebuilt.toNumbered, hrebuilt.spanned hold, hstate⟩, hs, fun hw => ?_⟩
    obtain ⟨old, hold, hcast⟩ := bind_eq_some_iff.mp hval
    have hlanes : tgt.lanes = 1 := by
      rw [← lanes_eq_of_convertsTo hconv, (hr hw).type_of_immediate? hold]
      rfl
    exact ⟨.immediate rfl, Value.type_cast hcast hlanes⟩
  · intro st hs hstate hold
    have hrebuilt := Rebuilt.wrapInCast opd st.nodeCount tgt
    refine ⟨⟨hrebuilt.toNumbered, hrebuilt.spanned hold, ⟨hstate.lexemes, hstate.stop⟩⟩, hs,
      fun hw => ⟨?_, rfl⟩⟩
    have hcast : (Node.mk { opd.label with type := tgt } (.unary .cast opd)).ReadUnder tbl :=
      (hr hw).unary (hv hw) nofun (castsTo_of_convertsTo hne hconv)
    exact hcast.of_alike (.wrapInCast opd _ _)

lemma makeCast_gives (hr : tbl.WellFormed → opd.ReadUnder tbl) (hv : tbl.WellFormed → type.Valid)
    (hspan : may span) : MakesOf type may tbl [opd] (makeCast opd type span) := by
  unfold makeCast
  split
  · rename_i heq
    exact .pure rfl ⟨rfl, fun hw => ⟨hr hw, heq⟩⟩
  split
  · exact .fail hspan
  rename_i hcasts
  rw [Bool.not_eq_true', Bool.not_eq_false] at hcasts
  exact makeTyped_gives (.unary .cast opd) hspan fun hw id => (hr hw).unary (hv hw) nofun hcasts

section

variable (region : Span.Region may)

include region

lemma checkAssignable_gives {tgt : Node} (h : tgt.Spanned may) (hspan : may span) :
    Looks may tbl old (checkAssignable tgt span) fun _ => tgt.form.IsTarget tbl := by
  have hjoin := region.join h.span hspan
  unfold checkAssignable
  dsimp only
  split
  · rename_i id hform
    refine .skip (.symbol id) ?_
    rintro _ rfl
    rw [hform]
    split
    · rename_i hwritable
      exact .pure rfl ⟨rfl, id, rfl, hwritable⟩
    · split <;> exact .fail hjoin
  · exact .fail hjoin

lemma makeUnary_gives {op : UnaryOp} (hop : op ≠ .cast) (h : opd.Spanned may)
    (hr : tbl.WellFormed → opd.ReadUnder tbl)
    (hspan : may span) : Makes may tbl [opd] (makeUnary op opd span) := by
  have hmake (hstep : op.isStep = true → opd.form.IsTarget tbl) :
      Makes may tbl [opd] (if acceptsBase op opd.type.base then makeNode (.unary op opd) opd.type span
        else fail (.invalidOperand op.symbol opd.type) span) := by
    split
    · rename_i haccepts
      refine makeNode_gives (.unary op opd) hspan fun hw id => ?_
      refine (hr hw).unary (hr hw).valid (fun hs => (hr hw).isTarget (hstep hs)) ?_
      cases op <;> first | exact ⟨haccepts, rfl⟩ | exact absurd rfl hop
    · exact .fail hspan
  unfold makeUnary
  by_cases hstep : op.isStep = true
  · rw [if_pos hstep]
    exact .skip (checkAssignable_gives region h hspan) fun _ htgt => hmake fun _ => htgt
  · rw [if_neg hstep]
    exact hmake fun hs => absurd hs hstep

end

/-! ## Binary operators -/

lemma takes_of_operatorTyping? {a b : ValueType} {typing : OperatorTyping}
    (h : operatorTyping? op a b = some typing) : op ≠ .assign ∧
      match typing.operands? with
      | none => a = b ∧ op.Takes a typing.result
      | some common => (common = a ∨ common = b) ∧ op.Takes common typing.result := by
  refine ⟨fun hop => ?_, ?_⟩
  · rw [hop] at h
    cases h
  unfold operatorTyping? at h
  unfold BinaryOp.Takes
  cases hclass : op.operatorClass with
  | assignment =>
    rw [hclass] at h
    cases h
  | arithmetic =>
    rw [hclass] at h
    dsimp only at h ⊢
    split at h
    · rename_i common hcommon
      split at h
      · cases h
      · rename_i hmod
        cases h
        obtain ⟨hone, hnumeric⟩ := promote_eq hcommon
        exact ⟨hone, hnumeric, fun hop => by simpa [hop] using hmod, rfl⟩
    · cases h
  | bitwise =>
    rw [hclass] at h
    dsimp only at h ⊢
    split at h
    · rename_i hcond
      cases h
      simp only [Bool.and_eq_true, Bool.or_eq_true, decide_eq_true_eq] at hcond
      exact ⟨hcond.1, hcond.2, rfl⟩
    · cases h
  | shift =>
    rw [hclass] at h
    dsimp only at h ⊢
    split at h
    · rename_i hcond
      cases h
      simp only [Bool.and_eq_true, decide_eq_true_eq] at hcond
      exact ⟨hcond.1, hcond.2, rfl⟩
    · cases h
  | comparison =>
    rw [hclass] at h
    obtain ⟨common, hcommon, rfl⟩ := map_eq_some_iff.mp h
    split at hcommon
    · rename_i hcond
      cases hcommon
      simp only [Bool.and_eq_true, decide_eq_true_eq] at hcond
      exact ⟨.inl rfl, .inr ⟨hcond.1.1, hcond.2⟩, rfl⟩
    · obtain ⟨hone, hnumeric⟩ := promote_eq hcommon
      exact ⟨hone, .inl hnumeric, rfl⟩
  | logical =>
    rw [hclass] at h
    dsimp only at h ⊢
    split at h
    · rename_i hcond
      cases h
      simp only [Bool.and_eq_true, decide_eq_true_eq] at hcond
      exact ⟨hcond.1.trans hcond.2.symm, hcond.1, rfl⟩
    · cases h

end Parser

lemma BinaryOp.Takes.valid {opd res : ValueType} (h : op.Takes opd res) (hv : opd.Valid) : res.Valid := by
  unfold Takes at h
  split at h
  · rw [h]
    exact hv
  · rw [h.2.2]
    exact hv
  · rw [h.2]
    exact hv
  · rw [h.2]
    exact hv
  · rw [h.2]
    exact hv.withBase (by decide)
  · rw [h.2]
    exact valid_scalar .bool

namespace Parser

variable {may : Span → Prop} (region : Span.Region may)

include region

lemma makeBinary_gives (hls : lhs.Spanned may) (hrs : rhs.Spanned may)
    (hl : tbl.WellFormed → lhs.ReadUnder tbl) (hr : tbl.WellFormed → rhs.ReadUnder tbl) :
    Makes may tbl [lhs, rhs] (makeBinary op lhs rhs) := by
  have hspan := region.join hls.span hrs.span
  unfold makeBinary
  dsimp only
  split
  · exact .fail hspan
  · rename_i res htyping
    obtain ⟨hasg, heq, htakes⟩ := takes_of_operatorTyping? htyping
    refine makeNode_gives (.binary op lhs rhs) hspan fun hw id => ?_
    exact (hl hw).binary (hr hw) (htakes.valid (hl hw).valid) (fun ha => absurd ha hasg) heq htakes
  · rename_i common res htyping
    obtain ⟨hasg, hone, htakes⟩ := takes_of_operatorTyping? htyping
    have hvalid (hw : tbl.WellFormed) : common.Valid := by
      rcases hone with rfl | rfl
      · exact (hl hw).valid
      · exact (hr hw).valid
    refine .keep ((coerce_gives hl hvalid).frame [] [rhs]) fun left hleft _ => ?_
    refine .keep ((coerce_gives hr hvalid).frame [left] []) fun right hright _ => ?_
    refine makeNode_gives (.binary op left right) hspan fun hw id => ?_
    refine (hleft hw).1.binary (hright hw).1 (htakes.valid (hvalid hw)) (fun ha => absurd ha hasg)
      ((hleft hw).2.trans (hright hw).2.symm) ?_
    rw [(hleft hw).2]
    exact htakes

lemma makeSwizzle_gives {obj : Node} {field : Token} (h : obj.Spanned may)
    (hr : tbl.WellFormed → obj.ReadUnder tbl)
    (hfield : may field.span) : Makes may tbl [obj] (makeSwizzle obj field) := by
  have hspan := region.join h.span hfield
  unfold makeSwizzle
  dsimp only
  split
  · rename_i type htype
    refine makeNode_gives (.swizzle obj field.text) hspan fun hw id => ?_
    exact .of_form rfl rfl (valid_swizzleType (hr hw).valid htype)
      (fun _ _ => ⟨(hr hw).isExpression, isVector_of_swizzleType htype⟩) (by simpa [Form.children] using hr hw)
  · exact .fail hspan

end Parser

end Shading
