import Mathlib.Data.List.Forall2
import Shading.Proofs.Simplify.Facts
import Shading.Proofs.Simplify.Rule
import Shading.Proofs.Tree.Access
import Shading.Proofs.Tree.Words

/-!
# Single visits keep types

`Preserved` is what a visit keeps of a node; one lemma for each way in which a
node can be visited derives it from what is kept of the children.
-/

namespace Shading

open Node Form List Option

variable {args coerced : List Node} {node operand seen : Node} {val : Value} {callee sym : SymbolId}
  {types : List ValueType} {op : UnaryOp} {res type : ValueType} {env : SimplifyEnv} {tbl : SymbolTable}
  {lbl : Label}
  {form : Form Node} {lhs rhs body : Node} {kind : LoopKind} {init? cond? step? visitedInit? : Option Node}
  {α β : Type} {pairs : List (Node × ValueType)}

lemma exists_of_mem_forall₂ {r : α → β → Prop} {as : List α} {bs : List β}
    (h : List.Forall₂ r as bs) {b : β} (hb : b ∈ bs) : ∃ a ∈ as, r a b := by
  induction h with
  | nil => cases hb
  | cons hfirst hrest ih =>
    rcases mem_cons.mp hb with rfl | hb
    · exact ⟨_, mem_cons_self .., hfirst⟩
    · obtain ⟨a, ha, hr⟩ := ih hb
      exact ⟨a, mem_cons_of_mem _ ha, hr⟩

/-- The results of a row are those of its members. -/
lemma forall₂_of_mapM {f : α → Option β} {as : List α} {bs : List β} (h : as.mapM f = some bs) :
    List.Forall₂ (fun a b => f a = some b) as bs := by
  induction as generalizing bs with
  | nil =>
    cases h
    exact .nil
  | cons a rest ih =>
    simp only [List.mapM_cons, Option.pure_def, Option.bind_eq_bind, Option.bind_eq_some_iff, Option.some.injEq]
      at h
    obtain ⟨first, hfirst, others, hothers, rfl⟩ := h
    exact .cons hfirst (ih hothers)

/-- An expression of a type that has passed all checks. -/
structure Node.Fits (table : SymbolTable) (result type : ValueType) (node : Node) : Prop where
  isExpression : node.form.isExpression = true
  typed : node.Typed table
  checked : node.Checked table result
  type_eq : node.type = type

/-- What a visit keeps of a node, in a function with results of a type. -/
structure Preserved (table : SymbolTable) (result : ValueType) (node visited : Node) : Prop where
  typed : visited.Typed table
  checked : visited.Checked table result
  isExpression_eq : visited.form.isExpression = node.form.isExpression
  type_eq : node.form.isExpression = true → visited.type = node.type
  isDeclare_eq : visited.form.isDeclare = node.form.isDeclare
  isStatement : visited.form.isStatement = true
  isBlock : node.form.isBlock = true → visited.form.isBlock = true
  isInit : node.IsInit → visited.IsInit
  readable : node.Readable table .read → visited.Readable table .read
  words : (result.IsWord ∨ result.isVoid = true) → node.Words table → visited.Words table

namespace Node

lemma fits_ofValue (h : val.type = type) : (ofValue val).Fits tbl res type := by
  refine ⟨rfl, typed_mk.mpr ⟨⟨?_, rfl⟩, by simp [Form.children]⟩,
    checked_mk.mpr ⟨trivial, by simp [Form.children]⟩, h⟩
  exact ValueType.valid_scalar _

lemma words_ofValue (h : val.type.IsWord) : (ofValue val).Words tbl := by
  refine words_mk.mpr ⟨⟨fun _ => .inl h, by simp [Form.callee?]⟩, by simp [Form.children]⟩

lemma readable_ofValue (val : Value) : (ofValue val).Readable tbl .read :=
  (readable_iff_of_readsChildren rfl).mpr nofun

lemma type_of_immediate? (ht : node.Typed tbl) (h : node.immediate? = some val) : node.type = val.type := by
  have hrule := ht.rule
  obtain ⟨lbl, form⟩ := node
  cases form <;> cases h
  exact hrule

lemma checked_of_var (h : node.form = .var sym) : node.Checked tbl res := by
  obtain ⟨lbl, form⟩ := node
  obtain rfl : form = .var sym := h
  exact checked_mk.mpr ⟨trivial, by simp [Form.children]⟩

/-- Operations have no checks of their own. -/
lemma checked_of_children (hc : form.callee? = none) (he : form.isExpression = true)
    (h : ∀ kid ∈ form.children, kid.Checked tbl res) : (mk lbl form).Checked tbl res := by
  refine checked_mk.mpr ⟨?_, h⟩
  cases form <;> trivial

/-- Only calls have a word rule of their own. -/
lemma words_of_children (hc : form.callee? = none)
    (hw : form.isExpression = true → lbl.type.IsWord) (h : ∀ kid ∈ form.children, kid.Words tbl) :
    (mk lbl form).Words tbl := by
  refine words_mk.mpr ⟨⟨fun he => .inl (hw he), ?_⟩, h⟩
  rw [form_mk, hc]
  simp

/-! ## Conversions -/

variable {tgt : ValueType} {coerced : Node}

/-- A value of the right type is left alone. -/
lemma coerced?_of_type_eq (h : node.type = tgt) : node.coerced? env tgt = some node := by
  have hkeep : coercion env.options.fold node.operand tgt = .keep := if_pos h
  rw [coerced?, hkeep]

/-- A value stays, or it becomes a literal where literals are folded, or it
gets a cast. -/
lemma coerced?_cases (h : node.coerced? env tgt = some coerced) : node.type = tgt ∧ coerced = node ∨
    node.type ≠ tgt ∧ node.type.convertsTo tgt = true ∧ ((env.options.fold = true ∧ tgt.isVector = false ∧
      ∃ original val, Value.cast original tgt.base = some val ∧ coerced = .ofValue val) ∨
        coerced = .mk { node.label with type := tgt } (.unary .cast node)) := by
  by_cases htype : node.type = tgt
  · rw [coerced?_of_type_eq htype] at h
    exact .inl ⟨htype, (some.inj h).symm⟩
  rw [coerced?, coercion, operand, if_neg htype] at h
  by_cases hconv : node.type.convertsTo tgt = true
  · refine .inr ⟨htype, hconv, ?_⟩
    rw [hconv, Bool.not_true, if_neg Bool.false_ne_true] at h
    cases hlit : if env.options.fold && !tgt.isVector then node.immediate?.bind (·.cast tgt.base) else none with
    | none =>
      rw [hlit] at h
      exact .inr (some.inj h).symm
    | some val =>
      rw [hlit] at h
      obtain ⟨hboth, hval⟩ := ite_none_right_eq_some.mp hlit
      obtain ⟨hfold, hscalar⟩ := Bool.and_eq_true_iff.mp hboth
      obtain ⟨original, -, hcast⟩ := bind_eq_some_iff.mp hval
      exact .inl ⟨hfold, by simpa using hscalar, original, val, hcast, (some.inj h).symm⟩
  · simp [hconv] at h

lemma Fits.coerced? (h : node.Fits env.symbols res type) (hv : tgt.Valid)
    (hc : node.coerced? env tgt = some coerced) : coerced.Fits env.symbols res tgt := by
  rcases coerced?_cases hc with ⟨htype, rfl⟩ | ⟨hne, hconv, ⟨-, hscalar, original, val, hcast, rfl⟩ | rfl⟩
  · exact { h with type_eq := htype }
  · exact fits_ofValue (Value.type_cast hcast (ValueType.lanes_eq_one hv hscalar))
  · have htakes : UnaryOp.cast.Takes node.type tgt := ValueType.castsTo_of_convertsTo hne hconv
    refine ⟨rfl, typed_mk.mpr ⟨⟨hv, h.isExpression, (nomatch ·), htakes⟩, ?_⟩,
      checked_of_children rfl rfl ?_, rfl⟩
    · intro kid hm
      obtain rfl := mem_singleton.mp hm
      exact h.typed
    · intro kid hm
      obtain rfl := mem_singleton.mp hm
      exact h.checked

/-- Words are never converted. -/
lemma eq_of_coerced? (h : node.type.IsWord ∨ node.type = .void) (ht : tgt.IsWord)
    (hc : node.coerced? env tgt = some coerced) : coerced = node := by
  rcases coerced?_cases hc with ⟨-, heq⟩ | ⟨hne, hconv, -⟩
  · exact heq
  · rcases h with h | h
    · exact absurd (eq_of_convertsTo h ht hconv) hne
    · rw [h] at hconv
      rcases ht with rfl | rfl <;> cases hconv

end Node

namespace Preserved

lemma of_alike {other : Node} (h : Preserved tbl res node seen) (ha : seen.Alike other) :
    Preserved tbl res node other := by
  have hform := ha.form_map_eq
  refine ⟨h.typed.of_alike ha, h.checked.of_alike ha, ?_, fun he => ha.type_eq ▸ h.type_eq he, ?_, ?_,
    fun hb => ?_,
    fun hi => ?_, fun hreads => (h.readable hreads).of_alike ha, fun hr hw => (h.words hr hw).of_alike ha⟩
  · rw [← h.isExpression_eq, ← isExpression_map erase, ← hform, isExpression_map]
  · rw [← h.isDeclare_eq, ← isDeclare_map erase, ← hform, isDeclare_map]
  · rw [← isStatement_map erase, ← hform, isStatement_map]
    exact h.isStatement
  · rw [← isBlock_map erase, ← hform, isBlock_map]
    exact h.isBlock hb
  · rw [← isInit_erase, ← ha, isInit_erase]
    exact h.isInit hi

lemma fits (h : Preserved tbl res node seen) (he : node.form.isExpression = true) :
    seen.Fits tbl res node.type :=
  ⟨h.isExpression_eq.trans he, h.typed, h.checked, h.type_eq he⟩

lemma of_fits (he : node.form.isExpression = true) (h : seen.Fits tbl res node.type)
    (hreads : node.Readable tbl .read → seen.Readable tbl .read)
    (hw : (res.IsWord ∨ res.isVoid = true) → node.Words tbl → seen.Words tbl) :
    Preserved tbl res node seen := by
  have hother : ∀ {node : Node}, node.form.isExpression = true → node.form.isDeclare = false ∧
      node.form.isBlock = false := by
    intro node he
    cases hform : node.form <;> simp_all [Form.isExpression, Form.isDeclare, Form.isBlock]
  refine ⟨h.typed, h.checked, h.isExpression.trans he.symm, fun _ => h.type_eq, ?_,
    isStatement_of_isExpression h.isExpression, fun hb => ?_, fun _ => ?_, hreads, hw⟩
  · rw [(hother h.isExpression).1, (hother he).1]
  · rw [(hother he).2] at hb
    cases hb
  · exact IsInit.expression h.isExpression

lemma refl (ht : node.Typed tbl) (hc : node.Checked tbl res) (hs : node.form.isStatement = true) :
    Preserved tbl res node node :=
  ⟨ht, hc, rfl, fun _ => rfl, rfl, hs, id, id, id, fun _ => id⟩

lemma of_statement (he : node.form.isExpression = false) (hd : node.form.isDeclare = false)
    (hb : node.form.isBlock = false) (hve : seen.form.isExpression = false)
    (hvd : seen.form.isDeclare = false) (hvs : seen.form.isStatement = true) (ht : seen.Typed tbl)
    (hc : seen.Checked tbl res) (hreads : node.Readable tbl .read → seen.Readable tbl .read)
    (hw : (res.IsWord ∨ res.isVoid = true) → node.Words tbl → seen.Words tbl) :
    Preserved tbl res node seen := by
  refine ⟨ht, hc, hve.trans he.symm, fun h => ?_, hvd.trans hd.symm, hvs, fun h => ?_, fun hi => ?_, hreads, hw⟩
  · rw [he] at h
    cases h
  · rw [hb] at h
    cases h
  · rcases isInit_iff.mp hi with ⟨stmts, hform, -⟩ | h | h
    · rw [hform] at hb
      cases hb
    · rw [hd] at h
      cases h
    · rw [he] at h
      cases h

end Preserved

namespace Node

lemma fits_unary (hv : lbl.type.Valid) (hs : op.isStep = false)
    (ho : operand.Fits tbl res type) (ht : op.Takes type lbl.type) :
    (mk lbl (.unary op operand)).Fits tbl res lbl.type := by
  refine ⟨rfl, typed_mk.mpr ⟨⟨hv, ho.isExpression, fun h => ?_, ho.type_eq ▸ ht⟩, ?_⟩,
    checked_of_children rfl rfl ?_, rfl⟩
  · rw [hs] at h
    cases h
  all_goals
    intro kid hm
    obtain rfl := mem_singleton.mp hm
  · exact ho.typed
  · exact ho.checked

lemma fits_binary {op : BinaryOp} (hv : lbl.type.Valid) (hl : lhs.Fits tbl res type)
    (hr : rhs.Fits tbl res type) (ht : op.Takes type lbl.type)
    (ha : op = .assign → lhs.form.IsTarget tbl) :
    (mk lbl (.binary op lhs rhs)).Fits tbl res lbl.type := by
  refine ⟨rfl, typed_mk.mpr ⟨⟨hv, hl.isExpression, hr.isExpression, ha, hl.type_eq.trans hr.type_eq.symm,
    hl.type_eq ▸ ht⟩, ?_⟩, checked_of_children rfl rfl ?_, rfl⟩
  all_goals
    intro kid hm
    simp only [Form.children, mem_cons, not_mem_nil, or_false] at hm
  · rcases hm with rfl | rfl
    · exact hl.typed
    · exact hr.typed
  · rcases hm with rfl | rfl
    · exact hl.checked
    · exact hr.checked

lemma fits_var (ht : node.Typed tbl) (h : node.form = .var sym) : node.Fits tbl res (tbl.get sym).type := by
  have hrule := ht.rule
  rw [h] at hrule
  exact ⟨by rw [h]; rfl, ht, checked_of_var h, hrule.2.2⟩

/-- What holds of every converted argument holds of all of them. -/
lemma forall_mem_of_mapM_coerced? {p : Node → Prop}
    (h : ∀ pair ∈ pairs, ∀ node, pair.1.coerced? env pair.2 = some node → p node)
    (hc : pairs.mapM (fun arg => arg.1.coerced? env arg.2) = some coerced) : ∀ node ∈ coerced, p node := by
  intro node hm
  obtain ⟨pair, hp, hnode⟩ := exists_of_mem_forall₂ (forall₂_of_mapM hc) hm
  exact h pair hp node hnode

lemma fits_of_mapM_coerced? (h : ∀ pair ∈ pairs, (∃ type, pair.1.Fits env.symbols res type) ∧ pair.2.Valid)
    (hc : pairs.mapM (fun arg => arg.1.coerced? env arg.2) = some coerced) :
    List.Forall₂ (fun pair node => node.Fits env.symbols res pair.2) pairs coerced := by
  refine ((forall₂_and_left _ _).mpr ⟨h, forall₂_of_mapM hc⟩).imp ?_
  rintro _ _ ⟨⟨⟨type, hfits⟩, hvalid⟩, hcoerced⟩
  exact hfits.coerced? hvalid hcoerced

lemma eq_of_mapM_coerced? {nodes : List Node}
    (hlen : types.length = nodes.length) (hn : ∀ node ∈ nodes, node.type.IsWord ∨ node.type = .void)
    (ht : ∀ type ∈ types, type.IsWord)
    (hc : (nodes.zip types).mapM (fun arg => arg.1.coerced? env arg.2) = some coerced) :
    coerced = nodes := by
  have hrow : List.Forall₂ (fun pair node => pair.1 = node) (nodes.zip types) coerced := by
    refine ((forall₂_and_left _ _).mpr ⟨fun pair hm => of_mem_zip hm, forall₂_of_mapM hc⟩).imp ?_
    rintro _ _ ⟨⟨hnode, htype⟩, hcoerced⟩
    exact (eq_of_coerced? (hn _ hnode) (ht _ htype) hcoerced).symm
  rw [← forall₂_map_left_iff, map_fst_zip (Nat.le_of_eq hlen.symm), forall₂_eq_eq_eq] at hrow
  exact hrow.symm

end Node

/-! ## One step -/

lemma Node.Readable.coerced? {coerced : Node} (h : node.Readable tbl .read)
    (hc : node.coerced? env type = some coerced) : coerced.Readable tbl .read := by
  rcases coerced?_cases hc with ⟨-, rfl⟩ | ⟨-, -, ⟨-, -, -, val, -, rfl⟩ | rfl⟩
  · exact h
  · exact readable_ofValue val
  · exact (readable_iff_of_readsChildren rfl).mpr (forall_mem_singleton.mpr h)

namespace Preserved

/-- Forms that read their children, all from what was read. -/
lemma readable_of_parts {own : Label} {seen : Form Node} (hs : seen.readsChildren = true)
    (hf : form.readsChildren = true)
    (h : ∀ kid ∈ seen.children, ∃ node ∈ form.children, Preserved tbl res node kid)
    (hreads : (Node.mk lbl form).Readable tbl .read) : (Node.mk own seen).Readable tbl .read := by
  refine (readable_iff_of_readsChildren hs).mpr fun kid hm => ?_
  obtain ⟨node, hn, hkept⟩ := h kid hm
  exact hkept.readable (hreads.child hf hn)

lemma ofValue (he : node.form.isExpression = true) (h : val.type = node.type) :
    Preserved env.symbols res node (.ofValue val) := by
  refine .of_fits he (fits_ofValue h) (fun _ => readable_ofValue val) fun _ hw => words_ofValue ?_
  refine h ▸ hw.isWord he ?_
  rw [← h]
  cases val <;> rfl

section

variable (ht : (Node.mk lbl (.unary op operand)).Typed env.symbols)

include ht

lemma step {updated : Value} (hs : op.isStep = true)
    (hv : operand.form = .var sym) (hu : updated.type = (env.symbols.get sym).type) :
    Preserved env.symbols res (.mk lbl (.unary op operand))
      (.mk lbl (.binary .assign operand (.ofValue updated))) := by
  obtain ⟨⟨hvalid, -, hwritable, htakes⟩, hkids⟩ := Node.typed_mk.mp ht
  have hopd := hkids operand (.head _)
  have htgt : operand.Fits env.symbols res (env.symbols.get sym).type := Node.fits_var hopd hv
  have htype : lbl.type = (env.symbols.get sym).type := by
    rw [← htgt.type_eq]
    cases op <;> first | exact htakes.2 | cases hs
  refine .of_fits rfl (fits_binary hvalid htgt (fits_ofValue hu) htype fun _ => hwritable hs)
    (fun _ => readable_mk.mpr ⟨(readable_of_var hv).mpr nofun, readable_ofValue _⟩) fun _ hw => ?_
  have hword := hw.isWord_of_callee? rfl rfl
  refine words_of_children rfl (fun _ => hword) fun kid hm => ?_
  simp only [Form.children, mem_cons, not_mem_nil, or_false] at hm
  rcases hm with rfl | rfl
  · exact hw.child (.head _)
  · exact words_ofValue (hu ▸ htype ▸ hword)

lemma unary (hs : op.isStep = false) (h : Preserved env.symbols res operand seen) :
    Preserved env.symbols res (.mk lbl (.unary op operand)) (.mk lbl (.unary op seen)) := by
  obtain ⟨⟨hv, ho, -, htakes⟩, -⟩ := Node.typed_mk.mp ht
  refine .of_fits rfl (Node.fits_unary hv hs (h.fits ho) htakes)
    (fun hreads => (readable_unary hs).mpr (h.readable ((readable_unary hs).mp hreads))) fun hr hw => ?_
  refine Node.words_of_children rfl (fun _ => ?_) fun kid hm => ?_
  · exact hw.isWord_of_callee? rfl rfl
  · obtain rfl := mem_singleton.mp hm
    exact h.words hr (hw.child (.head _))

lemma cancel {inner : UnaryOp} {innermost : Node} (hc : op.cancels inner = true)
    (hform : seen.form = .unary inner innermost) (h : Preserved env.symbols res operand seen) :
    Preserved env.symbols res (.mk lbl (.unary op operand)) innermost := by
  obtain ⟨⟨hv, ho, -, htakes⟩, -⟩ := Node.typed_mk.mp ht
  simp only [UnaryOp.cancels, Bool.and_eq_true, decide_eq_true_eq] at hc
  obtain ⟨rfl, hinvolution⟩ := hc
  have hfits := h.fits ho
  have hrule := hfits.typed.rule
  rw [hform] at hrule
  obtain ⟨hinner, -, htakesInner⟩ := hrule
  have hmem : innermost ∈ seen.form.children := by
    rw [hform]
    exact mem_singleton_self _
  have htype : innermost.type = lbl.type := by
    have : lbl.type = operand.type := by
      cases inner <;> first | exact htakes.2 | cases hinvolution
    rw [this, ← hfits.type_eq]
    cases inner <;> first | exact htakesInner.2.symm | cases hinvolution
  refine .of_fits rfl ⟨hinner, hfits.typed.child hmem, Node.Everywhere.child hfits.checked hmem,
    htype⟩ (fun hreads => ?_) fun hr hw => (h.words hr (hw.child (.head _))).child hmem
  have hstep : inner.isStep = false := by
    cases inner <;> first | rfl | cases hinvolution
  exact (h.readable ((readable_unary hstep).mp hreads)).child (by rw [hform, readsChildren, hstep]; rfl) hmem

end

lemma operation {op : BinaryOp} {left right : Node} {reduction : Reduction}
    (ht : (Node.mk lbl (.binary op lhs rhs)).Typed env.symbols) (ha : op ≠ .assign)
    (hl : Preserved env.symbols res lhs left) (hr : Preserved env.symbols res rhs right)
    (hreduction : reduction = .keep ∨ (∃ val : Value, val.type = lbl.type ∧ reduction = .literal val) ∨
      (left.type = lbl.type ∧ reduction = .operand .left) ∨ right.type = lbl.type ∧ reduction = .operand .right) :
    Preserved env.symbols res (.mk lbl (.binary op lhs rhs))
      (reduction.result (.mk lbl (.binary op left right)) left right) := by
  obtain ⟨⟨hv, hlhs, hrhs, -, hsame, htakes⟩, -⟩ := Node.typed_mk.mp ht
  have hleft := hl.fits hlhs
  have hright := hr.fits hrhs
  have hwords : (res.IsWord ∨ res.isVoid = true) → (Node.mk lbl (.binary op lhs rhs)).Words env.symbols →
      left.Words env.symbols ∧ right.Words env.symbols := fun hresult hw =>
    ⟨hl.words hresult (hw.child (.head _)), hr.words hresult (hw.child (.tail _ (.head _)))⟩
  have hreads (h : (Node.mk lbl (.binary op lhs rhs)).Readable env.symbols .read) :
      left.Readable env.symbols .read ∧ right.Readable env.symbols .read :=
    ((readable_binary ha).mp h).imp hl.readable hr.readable
  rcases hreduction with rfl | ⟨val, hval, rfl⟩ | ⟨htype, rfl⟩ | ⟨htype, rfl⟩
  · refine .of_fits rfl (fits_binary hv hleft (hsame ▸ hright) htakes fun h => absurd h ha)
      (fun h => (readable_binary ha).mpr (hreads h)) fun hresult hw => ?_
    refine words_of_children rfl (fun _ => ?_) fun kid hm => ?_
    · exact hw.isWord_of_callee? rfl rfl
    · simp only [Form.children, mem_cons, not_mem_nil, or_false] at hm
      rcases hm with rfl | rfl
      · exact (hwords hresult hw).1
      · exact (hwords hresult hw).2
  · exact .ofValue rfl hval
  · exact .of_fits rfl { hleft with type_eq := htype } (fun h => (hreads h).1) fun hresult hw =>
      (hwords hresult hw).1
  · exact .of_fits rfl { hright with type_eq := htype } (fun h => (hreads h).2) fun hresult hw =>
      (hwords hresult hw).2

lemma assign {tgt val coerced : Node} (hv : tgt.form = .var sym)
    (ht : (Node.mk lbl (.binary .assign tgt val)).Typed env.symbols)
    (h : Preserved env.symbols res val seen)
    (hc : seen.coerced? env (env.symbols.get sym).type = some coerced) :
    coerced = seen ∧ seen.type = (env.symbols.get sym).type ∧
      Preserved env.symbols res (.mk lbl (.binary .assign tgt val))
        (.mk lbl (.binary .assign tgt coerced)) := by
  obtain ⟨⟨hvalid, -, hval, hvar, hsame, htakes⟩, hkids⟩ := Node.typed_mk.mp ht
  have htgt : tgt.Fits env.symbols res (env.symbols.get sym).type :=
    Node.fits_var (hkids tgt (.head _)) hv
  have hfits := h.fits hval
  rw [← hsame, htgt.type_eq] at hfits
  rw [coerced?_of_type_eq hfits.type_eq] at hc
  obtain rfl := some.inj hc
  refine ⟨rfl, hfits.type_eq, .of_fits rfl (fits_binary hvalid htgt hfits ?_ hvar)
    (fun hreads => readable_mk.mpr ((readable_mk.mp hreads).imp_right h.readable)) fun hr hw => ?_⟩
  · exact htgt.type_eq ▸ htakes
  · refine words_of_children rfl (fun _ => ?_) fun kid hm => ?_
    · exact hw.isWord_of_callee? rfl rfl
    · simp only [Form.children, mem_cons, not_mem_nil, or_false] at hm
      rcases hm with rfl | rfl
      · exact hw.child (.head _)
      · exact h.words hr (hw.child (.tail _ (.head _)))

/-! ### Calls -/

/-- Arguments of a call after their conversions, and what is checked of them. -/
structure CallChecked (env : SimplifyEnv) (result : ValueType) (label : Label) (callee : SymbolId)
    (visited coerced : List Node) (types : List ValueType) : Prop where
  fits : ∀ node ∈ coerced, ∃ type ∈ types, node.Fits env.symbols result type
  types_eq : coerced.map (·.type) = types
  call : (Node.mk { label with type := checkedCallType (env.symbols.get callee) (visited.map (·.type)) label.type }
    (.call callee coerced)).Fits env.symbols result label.type

section

variable {seen : List Node} (hs : env.symbols.WellFormed)
  (ht : (Node.mk lbl (.call callee args)).Typed env.symbols)
  (h : List.Forall₂ (Preserved env.symbols res) args seen)
  (hp : parameterTypes (env.symbols.get callee) (seen.map (·.type)) = .ok types)
  (hc : (seen.zip types).mapM (fun arg => arg.1.coerced? env arg.2) = some coerced)

include hs ht h hp hc

lemma callChecked : seen.map (·.type) = args.map (·.type) ∧ CallChecked env res lbl callee seen coerced types := by
  obtain ⟨⟨hv, hexprs, hcallType⟩, -⟩ := Node.typed_mk.mp ht
  have htypes : seen.map (·.type) = args.map (·.type) := by
    clear hcallType hp hc ht
    induction h with
    | nil => rfl
    | cons hfirst hrest ih =>
      rw [map_cons, map_cons, hfirst.type_eq (hexprs _ (.head _)), ih (forall_mem_cons.mp hexprs).2]
  have hfits : ∀ node ∈ seen, ∃ type, node.Fits env.symbols res type := by
    intro node hm
    obtain ⟨arg, ha, hpreserved⟩ := exists_of_mem_forall₂ h hm
    exact ⟨_, hpreserved.fits (hexprs arg ha)⟩
  have hvalid : ∀ type ∈ types, type.Valid := by
    refine valid_of_parameterTypes hs (fun type hm => ?_) hp
    obtain ⟨node, hnode, rfl⟩ := mem_map.mp hm
    obtain ⟨type, hfit⟩ := hfits node hnode
    exact hfit.typed.valid
  have hlen : types.length = seen.length := by
    rw [length_of_parameterTypes hp, length_map]
  have hco := fits_of_mapM_coerced? (fun pair hm =>
    ⟨hfits pair.1 (of_mem_zip hm).1, hvalid pair.2 (of_mem_zip hm).2⟩) hc
  have hcoercedTypes : coerced.map (·.type) = types := by
    have hsnd : (seen.zip types).map Prod.snd = types := map_snd_zip (Nat.le_of_eq hlen)
    rw [← hsnd]
    generalize seen.zip types = pairs at hco
    clear hsnd hc
    induction hco with
    | nil => rfl
    | cons hfirst hrest ih => rw [map_cons, map_cons, hfirst.type_eq, ih]
  have hmem : ∀ node ∈ coerced, ∃ type ∈ types, node.Fits env.symbols res type := by
    intro node hm
    obtain ⟨pair, hpair, hfit⟩ := exists_of_mem_forall₂ hco hm
    exact ⟨pair.2, (of_mem_zip hpair).2, hfit⟩
  obtain ⟨hlabel, hcallTypes⟩ := callType?_of_parameterTypes hp (htypes ▸ hcallType)
  refine ⟨htypes, hmem, hcoercedTypes, rfl, ?_, ?_, hlabel⟩
  · refine typed_mk.mpr ⟨⟨?_, fun node hm => ?_, ?_⟩, fun node hm => ?_⟩
    · rw [hlabel]
      exact hv
    · obtain ⟨type, -, hfit⟩ := hmem node hm
      exact hfit.isExpression
    · rw [hcoercedTypes, hlabel]
      exact hcallTypes
    · obtain ⟨type, -, hfit⟩ := hmem node hm
      exact hfit.typed
  · refine checked_mk.mpr ⟨?_, fun node hm => ?_⟩
    · change parameterTypes _ (coerced.map (·.type)) = .ok (coerced.map (·.type))
      rw [hcoercedTypes]
      exact parameterTypes_parameterTypes hp
    · obtain ⟨type, -, hfit⟩ := hmem node hm
      exact hfit.checked

/-- Arguments over words are not converted. -/
lemma arguments_eq (hr : res.IsWord ∨ res.isVoid = true)
    (hw : (Node.mk lbl (.call callee args)).Words env.symbols) : coerced = seen := by
  obtain ⟨htypes, -⟩ := callChecked hs ht h hp hc
  obtain ⟨⟨-, hexprs, hcallType⟩, -⟩ := Node.typed_mk.mp ht
  have hrule := Node.Everywhere.here hw
  refine Node.eq_of_mapM_coerced? ?_ (fun node hm => ?_)
    (isWord_of_parameterTypes hp (hrule.2 callee ?_) ((hrule.1 rfl).imp_right And.right) ?_) hc
  · rw [length_of_parameterTypes hp, length_map]
  · obtain ⟨arg, ha, hpreserved⟩ := exists_of_mem_forall₂ h hm
    exact ((Node.Everywhere.here (hpreserved.words hr (hw.child ha))).1
      (hpreserved.isExpression_eq.trans (hexprs arg ha))).imp_right And.right
  · exact mem_singleton_self _
  · rw [htypes]
    exact hcallType

lemma call : Preserved env.symbols res (.mk lbl (.call callee args))
      (.mk { lbl with type := checkedCallType (env.symbols.get callee) (seen.map (·.type)) lbl.type }
        (.call callee coerced)) := by
  obtain ⟨-, hchecked⟩ := callChecked hs ht h hp hc
  refine .of_fits rfl hchecked.call (fun hreads => ?_) fun hr hw => ?_
  · refine (readable_iff_of_readsChildren rfl).mpr (forall_mem_of_mapM_coerced? (fun pair hm _ hpair => ?_) hc)
    obtain ⟨arg, ha, hpreserved⟩ := exists_of_mem_forall₂ h (of_mem_zip hm).1
    exact (hpreserved.readable (hreads.child rfl ha)).coerced? hpair
  have hrule := Node.Everywhere.here hw
  refine words_mk.mpr ⟨⟨fun _ => ?_, hrule.2⟩, fun node hm => ?_⟩
  · rw [hchecked.call.type_eq]
    exact (hrule.1 rfl).imp_right fun h => ⟨rfl, h.2⟩
  · rw [Form.children, arguments_eq hs ht h hp hc hr hw] at hm
    obtain ⟨arg, ha, hpreserved⟩ := exists_of_mem_forall₂ h hm
    exact hpreserved.words hr (hw.child ha)

lemma foldCall (hf : evaluateCall? (env.symbols.get callee) (coerced.map (·.immediate?)) = some val) :
    Preserved env.symbols res (.mk lbl (.call callee args)) (.ofValue val) := by
  obtain ⟨htypes, hchecked⟩ := callChecked hs ht h hp hc
  obtain ⟨⟨-, -, hcallType⟩, -⟩ := Node.typed_mk.mp ht
  refine .ofValue rfl ?_
  rw [← htypes] at hcallType
  unfold evaluateCall? at hf
  unfold Parser.callType? at hcallType
  rcases parameterTypes_eq_ok.mp hp with ⟨signature, hkind, -, -⟩ | ⟨f, common, hkind, -, hres, rfl⟩ <;>
    simp only [hkind] at hf hcallType
  · cases hf
  · obtain ⟨values, hvals, hevaluate⟩ := bind_eq_some_iff.mp hf
    rw [hres, getD_some] at hcallType
    rw [type_mk, ← some.inj hcallType]
    refine Intrinsic.type_of_evaluate (fun val hm => ?_) hevaluate
    -- Every value is that of an argument, which has the common type.
    obtain ⟨value?, hmem, rfl⟩ := exists_of_mem_forall₂ (forall₂_of_mapM hvals) hm
    obtain ⟨node, hnode, himmediate⟩ := mem_map.mp hmem
    obtain ⟨type, htype, hfit⟩ := hchecked.fits node hnode
    obtain ⟨_, -, rfl⟩ := mem_map.mp htype
    rw [← hfit.type_eq, type_of_immediate? hfit.typed himmediate]

end

/-! ### Statements -/

lemma define {val coerced : Node} (ht : (Node.mk lbl (.declare sym (some val))).Typed env.symbols)
    (h : Preserved env.symbols res val seen)
    (hc : seen.coerced? env (env.symbols.get sym).type = some coerced) :
    coerced = seen ∧ seen.type = (env.symbols.get sym).type ∧
      Preserved env.symbols res (.mk lbl (.declare sym (some val)))
        (.mk lbl (.declare sym (some coerced))) := by
  obtain ⟨⟨hvalid, hkind, hvoid, hsym, hval⟩, -⟩ := Node.typed_mk.mp ht
  obtain ⟨hexpr, htype⟩ := hval val rfl
  have hfits := h.fits hexpr
  rw [htype] at hfits
  rw [coerced?_of_type_eq hfits.type_eq] at hc
  obtain rfl := some.inj hc
  refine ⟨rfl, hfits.type_eq, ?_, ?_, rfl, nofun, rfl, rfl, nofun, fun _ => trivial,
    readable_of_parts rfl rfl (forall_mem_singleton.mpr ⟨val, .head _, h⟩), fun hr hw => ?_⟩
  · refine typed_mk.mpr ⟨⟨hvalid, hkind, hvoid, hsym, fun node hm => ?_⟩, fun node hm => ?_⟩
    · cases hm
      exact ⟨hfits.isExpression, hfits.type_eq⟩
    · obtain rfl := mem_singleton.mp hm
      exact hfits.typed
  · refine checked_mk.mpr ⟨trivial, fun node hm => ?_⟩
    obtain rfl := mem_singleton.mp hm
    exact hfits.checked
  · refine words_of_children rfl nofun fun node hm => ?_
    obtain rfl := mem_singleton.mp hm
    exact h.words hr (hw.child (.head _))

lemma returnValue (hr : res.Valid) {val coerced : Node} (hvoid : res.isVoid = false)
    (ht : (Node.mk lbl (.returnValue (some val))).Typed env.symbols)
    (h : Preserved env.symbols res val seen) (hc : seen.coerced? env res = some coerced) :
    Preserved env.symbols res (.mk lbl (.returnValue (some val))) (.mk lbl (.returnValue (some coerced))) := by
  obtain ⟨⟨hvalid, hval⟩, -⟩ := Node.typed_mk.mp ht
  have hvis := h.fits (hval val rfl)
  have hfits := hvis.coerced? hr hc
  refine .of_statement rfl rfl rfl rfl rfl rfl ?_ ?_ (fun hreads => ?_) fun hresult hw => ?_
  · refine typed_mk.mpr ⟨⟨hvalid, fun node hm => ?_⟩, fun node hm => ?_⟩
    · cases hm
      exact hfits.isExpression
    · obtain rfl := mem_singleton.mp hm
      exact hfits.typed
  · refine checked_mk.mpr ⟨⟨?_, fun node hm => ?_⟩, fun node hm => ?_⟩
    · rw [hvoid]
      rfl
    · cases hm
      exact hfits.type_eq
    · obtain rfl := mem_singleton.mp hm
      exact hfits.checked
  · have hval := h.readable (hreads.child rfl (.head _))
    exact (readable_iff_of_readsChildren rfl).mpr (forall_mem_singleton.mpr (hval.coerced? hc))
  · refine words_of_children rfl nofun fun node hm => ?_
    obtain rfl := mem_singleton.mp hm
    have hwords := h.words hresult (hw.child (.head _))
    have hword : res.IsWord := hresult.resolve_right (by rw [hvoid]; exact Bool.false_ne_true)
    have htype := ((Node.Everywhere.here hwords).1 hvis.isExpression).imp_right And.right
    rw [eq_of_coerced? htype hword hc]
    exact hwords

lemma block {stmts kept : List Node} (ht : (Node.mk lbl (.block stmts)).Typed env.symbols)
    (h : ∀ seen ∈ kept, ∃ node ∈ stmts, Preserved env.symbols res node seen) :
    Preserved env.symbols res (.mk lbl (.block stmts)) (.mk lbl (.block kept)) := by
  obtain ⟨⟨hvalid, -⟩, -⟩ := typed_mk.mp ht
  have hkept : ∀ {p : Node → Prop}, (∀ node seen, Preserved env.symbols res node seen → p seen) →
      ∀ seen ∈ kept, p seen := by
    intro p hp seen hm
    obtain ⟨node, -, hpreserved⟩ := h seen hm
    exact hp node seen hpreserved
  refine ⟨?_, ?_, rfl, nofun, rfl, rfl, fun _ => rfl, fun hi seen hm => ?_, readable_of_parts rfl rfl h,
    fun hr hw => ?_⟩
  · exact typed_mk.mpr ⟨⟨hvalid, hkept fun _ _ h => h.isStatement⟩, hkept fun _ _ h => h.typed⟩
  · exact checked_mk.mpr ⟨trivial, hkept fun _ _ h => h.checked⟩
  · obtain ⟨node, hn, hpreserved⟩ := h seen hm
    rw [hpreserved.isDeclare_eq]
    exact hi node hn
  · refine words_of_children rfl nofun fun seen hm => ?_
    obtain ⟨node, hn, hpreserved⟩ := h seen hm
    exact hpreserved.words hr (hw.child hn)

end Preserved

/-- What is kept of an arm whose condition was visited. -/
structure HalfArm.Fits (table : SymbolTable) (result : ValueType) (half : HalfArm) : Prop where
  valid : half.label.type.Valid
  condition : ∀ cond ∈ half.condition?, cond.Fits table result .bool
  body : half.body.Typed table
  isBlock : half.body.form.isBlock = true

/-- Condition and body are those of one of these arms, the condition after its visit. -/
def HalfArm.ComesFrom (table : SymbolTable) (result : ValueType) (arms : List Node) (half : HalfArm) : Prop :=
  ∃ arm ∈ arms, arm.form.readsChildren = true ∧ half.body ∈ arm.form.children ∧
    ∀ visited ∈ half.condition?, ∃ cond ∈ arm.form.children, Preserved table result cond visited

/-- An arm behind the visit of its body. -/
def HalfArm.Becomes (table : SymbolTable) (result : ValueType) (half : HalfArm) (arm : Node) : Prop :=
  ∃ visited, arm = .mk half.label (.arm half.condition? visited) ∧ Preserved table result half.body visited

namespace Preserved

lemma branch {arms seen : List Node} {halves : List HalfArm} (ht : (Node.mk lbl (.branch arms)).Typed env.symbols)
    (hh : ∀ half ∈ halves, half.Fits env.symbols res) (hlast : ∀ half ∈ halves.dropLast,
      half.condition?.isSome = true)
    (hparts : ∀ half ∈ halves, half.ComesFrom env.symbols res arms)
    (h : List.Forall₂ (HalfArm.Becomes env.symbols res) halves seen) :
    Preserved env.symbols res (.mk lbl (.branch arms)) (.mk lbl (.branch seen)) := by
  obtain ⟨⟨hvalid, -⟩, -⟩ := typed_mk.mp ht
  have harm : ∀ arm ∈ seen, ∃ half ∈ halves, half.Becomes env.symbols res arm :=
    fun arm hm => exists_of_mem_forall₂ h hm
  have hpart : ∀ arm ∈ seen, ∃ own ∈ arms, own.form.readsChildren = true ∧
      ∀ kid ∈ arm.form.children, ∃ node ∈ own.form.children, Preserved env.symbols res node kid := by
    intro arm hm
    obtain ⟨half, hhalf, body, rfl, hbody⟩ := harm arm hm
    obtain ⟨own, hown, hreads, hmem, hcond⟩ := hparts half hhalf
    refine ⟨own, hown, hreads, fun kid hc => ?_⟩
    rcases mem_append.mp hc with hc | hc
    · exact hcond kid (mem_toList.mp hc)
    · obtain rfl := mem_singleton.mp hc
      exact ⟨_, hmem, hbody⟩
  refine .of_statement rfl rfl rfl rfl rfl rfl ?_ ?_ (fun hreads => ?_) fun hr hw => ?_
  · refine typed_mk.mpr ⟨⟨hvalid, fun arm hm => ?_, fun arm hm => ?_⟩, fun arm hm => ?_⟩
    · obtain ⟨half, -, body, rfl, -⟩ := harm arm hm
      rfl
    · have hdrop := forall₂_take (halves.length - 1) h
      rw [h.length_eq, ← dropLast_eq_take, ← h.length_eq, ← dropLast_eq_take] at hdrop
      obtain ⟨half, hhalf, body, rfl, -⟩ := exists_of_mem_forall₂ hdrop hm
      obtain ⟨cond, hcond⟩ := isSome_iff_exists.mp (hlast half hhalf)
      rw [hcond]
      rfl
    · obtain ⟨half, hhalf, body, rfl, hbody⟩ := harm arm hm
      have hfits := hh half hhalf
      refine typed_mk.mpr ⟨⟨hfits.valid, fun cond hc => ?_, hbody.isBlock hfits.isBlock⟩, fun kid hc => ?_⟩
      · exact ⟨(hfits.condition cond hc).isExpression, (hfits.condition cond hc).type_eq⟩
      · rcases mem_append.mp hc with hc | hc
        · exact (hfits.condition kid (mem_toList.mp hc)).typed
        · obtain rfl := mem_singleton.mp hc
          exact hbody.typed
  · refine checked_mk.mpr ⟨trivial, fun arm hm => ?_⟩
    obtain ⟨own, -, -, hkids⟩ := hpart arm hm
    obtain ⟨half, -, body, rfl, -⟩ := harm arm hm
    refine checked_mk.mpr ⟨trivial, fun kid hc => ?_⟩
    obtain ⟨node, -, hkept⟩ := hkids kid hc
    exact hkept.checked
  · refine (readable_iff_of_readsChildren rfl).mpr fun arm hm => ?_
    obtain ⟨⟨own, form⟩, hown, hreadsOwn, hkids⟩ := hpart arm hm
    obtain ⟨half, -, body, rfl, -⟩ := harm arm hm
    exact readable_of_parts rfl hreadsOwn hkids (hreads.child rfl hown)
  · refine words_of_children rfl nofun fun arm hm => ?_
    obtain ⟨own, hown, -, hkids⟩ := hpart arm hm
    obtain ⟨half, -, body, rfl, -⟩ := harm arm hm
    refine words_of_children rfl nofun fun kid hc => ?_
    obtain ⟨node, hn, hkept⟩ := hkids kid hc
    exact hkept.words hr ((hw.child hown).child hn)

/-- What becomes of a part that may be missing. -/
lemma of_toList {node? visited? : Option Node}
    (h : List.Forall₂ (Preserved env.symbols res) node?.toList visited?.toList)
    (hv : seen ∈ visited?) : ∃ node ∈ node?, Preserved env.symbols res node seen := by
  obtain ⟨node, hn, hpreserved⟩ := exists_of_mem_forall₂ h (mem_toList.mpr hv)
  exact ⟨node, mem_toList.mp hn, hpreserved⟩

lemma nothing (he : node.form.isExpression = false) (hd : node.form.isDeclare = false)
    (hb : node.form.isBlock = false) : Preserved env.symbols res node .nothing :=
  .of_statement he hd hb rfl rfl rfl
    (typed_mk.mpr ⟨⟨ValueType.valid_scalar .void, by simp [Form.empty, Node.FormRule]⟩,
      by simp [Form.empty, Form.children]⟩)
    (checked_mk.mpr ⟨trivial, by simp [Form.empty, Form.children]⟩)
    (fun _ => (readable_iff_of_readsChildren rfl).mpr nofun)
    fun _ _ => words_of_children rfl nofun (by simp [Form.empty, Form.children])

section

variable (ht : (Node.mk lbl (.loop kind init? cond? step? body)).Typed env.symbols)
  (hi : ∀ seen ∈ visitedInit?, ∃ node ∈ init?, Preserved env.symbols res node seen)

include ht hi

lemma loop {kept? visitedStep? : Option Node} {visitedBody : Node}
    (hc : ∀ seen ∈ kept?, ∃ node ∈ cond?, Preserved env.symbols res node seen)
    (hs : ∀ seen ∈ visitedStep?, ∃ node ∈ step?, Preserved env.symbols res node seen)
    (hb : Preserved env.symbols res body visitedBody) :
    Preserved env.symbols res (.mk lbl (.loop kind init? cond? step? body))
      (.mk lbl (.loop kind visitedInit? kept? visitedStep? visitedBody)) := by
  obtain ⟨⟨hvalid, hinit, hcond, hstep, hblk⟩, -⟩ := Node.typed_mk.mp ht
  -- Every part comes from a part of the loop.
  have hpart : ∀ kid ∈ (Form.loop kind visitedInit? kept? visitedStep? visitedBody).children,
      ∃ node ∈ (Form.loop kind init? cond? step? body).children, Preserved env.symbols res node kid := by
    intro kid hm
    simp only [Form.children, mem_append, mem_singleton, mem_toList] at hm ⊢
    rcases hm with ((hm | hm) | rfl) | hm
    · obtain ⟨node, hn, h⟩ := hi kid hm
      exact ⟨node, .inl (.inl (.inl hn)), h⟩
    · obtain ⟨node, hn, h⟩ := hc kid hm
      exact ⟨node, .inl (.inl (.inr hn)), h⟩
    · exact ⟨body, .inl (.inr rfl), hb⟩
    · obtain ⟨node, hn, h⟩ := hs kid hm
      exact ⟨node, .inr hn, h⟩
  refine .of_statement rfl rfl rfl rfl rfl rfl ?_ ?_ (readable_of_parts rfl rfl hpart) fun hr hw => ?_
  · refine typed_mk.mpr ⟨⟨hvalid, fun seen hm => ?_, fun seen hm => ?_, fun seen hm => ?_,
      hb.isBlock hblk⟩, fun kid hm => ?_⟩
    · obtain ⟨node, hn, h⟩ := hi seen hm
      exact h.isInit (hinit node hn)
    · obtain ⟨node, hn, h⟩ := hc seen hm
      obtain ⟨he, htype⟩ := hcond node hn
      exact ⟨h.isExpression_eq.trans he, (h.type_eq he).trans htype⟩
    · obtain ⟨node, hn, h⟩ := hs seen hm
      exact h.isExpression_eq.trans (hstep node hn)
    · obtain ⟨node, -, h⟩ := hpart kid hm
      exact h.typed
  · refine checked_mk.mpr ⟨trivial, fun kid hm => ?_⟩
    obtain ⟨node, -, h⟩ := hpart kid hm
    exact h.checked
  · refine words_of_children rfl (fun h => by cases h) fun kid hm => ?_
    obtain ⟨node, hn, h⟩ := hpart kid hm
    exact h.words hr (hw.child hn)

lemma onlyInit :
    Preserved env.symbols res (.mk lbl (.loop kind init? cond? step? body)) (.onlyInit lbl visitedInit?) := by
  cases visitedInit? with
  | none => exact .nothing rfl rfl rfl
  | some seen =>
    obtain ⟨node, hn, h⟩ := hi seen rfl
    obtain ⟨⟨hvalid, -⟩, -⟩ := typed_mk.mp ht
    have hmem : node ∈ (Form.loop kind init? cond? step? body).children := by
      simp only [Form.children, mem_append, mem_toList]
      exact .inl (.inl (.inl hn))
    refine .of_statement rfl rfl rfl rfl rfl rfl ?_ ?_
      (readable_of_parts rfl rfl (forall_mem_singleton.mpr ⟨node, hmem, h⟩)) fun hr hw => ?_
    · refine typed_mk.mpr ⟨⟨hvalid, fun kid hm => ?_⟩, fun kid hm => ?_⟩ <;>
        obtain rfl := mem_singleton.mp hm
      · exact h.isStatement
      · exact h.typed
    · refine checked_mk.mpr ⟨trivial, fun kid hm => ?_⟩
      obtain rfl := mem_singleton.mp hm
      exact h.checked
    · refine words_of_children rfl (fun h => by cases h) fun kid hm => ?_
      obtain rfl := mem_singleton.mp hm
      exact h.words hr (hw.child hmem)

end

end Preserved

end Shading
