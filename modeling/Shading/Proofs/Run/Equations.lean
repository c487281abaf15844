import Shading.Proofs.Run.Related

/-!
# Equations of runs

What `value` and `run` are for each form, and that labels other than
types do not matter.
-/

namespace Shading

open Node Meaning

variable {a b node : Node} {init? : Option Node} {value : Value}

lemma Meaning.sequence_singleton {σ : Type} (run : RunnerOf σ) : Meaning.sequence [run] = run := by
  funext k store
  rw [Meaning.sequence]
  cases run k store with
  | none => rfl
  | some res =>
    obtain ⟨completion, last⟩ := res
    cases completion <;> rfl

lemma Meaning.values_cons (first : Evaluator) (rest : List Evaluator) (store : Store) :
    values (first :: rest) store =
      ((first store).1 :: (values rest (first store).2).1, (values rest (first store).2).2) := rfl

namespace Node

variable {interp : Interpretation} {table : SymbolTable} {lbl : Label}

section

variable (interp table)

/-- What a node does as an arm of a branch. -/
def armMeaning? (node : Node) : Option (Option Evaluator × Runner) := (node.meaning interp table).arm?

end

/-! ## Expressions -/

@[simp] lemma value_immediate (value : Value) :
    (mk lbl (.immediate value)).value interp table = fun store => (value, store) := by
  rw [Node.value, meaning_mk]
  rfl

@[simp] lemma value_var (sym : SymbolId) :
    (mk lbl (.var sym)).value interp table = fun store => (store.read table sym, store) := by
  rw [value, meaning_mk]
  rfl

@[simp] lemma value_unary (op : UnaryOp) (opd : Node) : (mk lbl (.unary op opd)).value interp table =
      unary table lbl op opd (opd.value interp table) := by
  rw [value, meaning_mk]
  rfl

/-- An operator that changes nothing. -/
lemma value_unary_of_isStep {op : UnaryOp} (h : op.isStep = false) (opd : Node) (store : Store) :
    (mk lbl (.unary op opd)).value interp table store = (op.apply (opd.value interp table store).1 lbl.type,
        (opd.value interp table store).2) := by
  rw [value_unary, unary, if_neg (by rw [h]; decide)]

@[simp] lemma value_binary (op : BinaryOp) (lhs rhs : Node) : (mk lbl (.binary op lhs rhs)).value interp table =
      binary interp table op lhs (lhs.value interp table) (rhs.value interp table) := by
  rw [value, meaning_mk]
  rfl

/-- An operation that evaluates both operands. -/
lemma value_operation {op : BinaryOp} (ha : op.operatorClass ≠ .assignment) (hl : op.operatorClass ≠ .logical)
    (lhs rhs : Node) (store : Store) :
    (mk lbl (.binary op lhs rhs)).value interp table store =
      (interp.binary op (lhs.value interp table store).1
        (rhs.value interp table (lhs.value interp table store).2).1,
        (rhs.value interp table (lhs.value interp table store).2).2) := by
  rw [value_binary]
  cases op <;> first | rfl | exact absurd rfl ha | exact absurd rfl hl

lemma value_assign {tgt : Node} {sym : SymbolId} (h : tgt.form = .var sym) (value : Node) (store : Store) :
    (mk lbl (.binary .assign tgt value)).value interp table store = ((value.value interp table store).1,
        (value.value interp table store).2.write table sym (value.value interp table store).1) := by
  rw [value_binary, binary, assign, h]

@[simp] lemma value_call (callee : SymbolId) (args : List Node) :
    (mk lbl (.call callee args)).value interp table =
      call interp table lbl callee (args.map (·.value interp table)) := by
  rw [value, meaning_mk]
  change call interp table lbl callee ((args.map _).map _) = _
  rw [List.map_map]
  rfl

/-! ## Statements -/

@[simp] lemma run_block (stmts : List Node) : (mk lbl (.block stmts)).run interp table =
      Meaning.sequence (stmts.map (·.run interp table)) := by
  rw [run, meaning_mk]
  change Meaning.sequence ((stmts.map _).map _) = _
  rw [List.map_map]
  rfl

@[simp] lemma run_branch (arms : List Node) : (mk lbl (.branch arms)).run interp table =
      choose (arms.filterMap (·.armMeaning? interp table)) := by
  rw [run, meaning_mk]
  change choose ((arms.map _).filterMap _) = _
  rw [List.filterMap_map]
  rfl

@[simp] lemma run_loop (kind : LoopKind) (init? cond? step? : Option Node) (body : Node) :
    (mk lbl (.loop kind init? cond? step? body)).run interp table =
      Meaning.sequence [Meaning.sequence (init?.toList.map (·.run interp table)),
        loop kind (cond?.map (·.value interp table))
          (step?.map (·.value interp table)) (body.run interp table)] := by
  rw [run, meaning_mk]
  cases init? <;> cases cond? <;> cases step? <;> rfl

@[simp] lemma run_break : (mk lbl .breakLoop).run interp table = fun _ store => some (.breaks, store) := by
  rw [run, meaning_mk]
  rfl

@[simp] lemma run_continue : (mk lbl .continueLoop).run interp table = fun _ store =>
    some (.continues, store) := by
  rw [run, meaning_mk]
  rfl

@[simp] lemma run_return (value? : Option Node) : (mk lbl (.returnValue value?)).run interp table =
      returnStatement (value?.map (·.value interp table)) := by
  rw [run, meaning_mk]
  cases value? <;> rfl

lemma run_return_some (value : Node) (k : Nat) (store : Store) :
    (mk lbl (.returnValue (some value))).run interp table k store =
      some (.returns (some (value.value interp table store).1), (value.value interp table store).2) := by
  rw [run_return]
  rfl

@[simp] lemma run_declare (sym : SymbolId) (ini? : Option Node) :
    (mk lbl (.declare sym ini?)).run interp table =
      declaration table sym (ini?.map (·.value interp table)) := by
  rw [run, meaning_mk]
  cases ini? <;> rfl

lemma run_define (sym : SymbolId) (value : Node) (k : Nat) (store : Store) :
    (mk lbl (.declare sym (some value))).run interp table k store =
      some (.normal, (value.value interp table store).2.write table sym
        (value.value interp table store).1) := by
  rw [run_declare]
  rfl

lemma run_expression (h : node.form.isExpression = true) : node.run interp table =
      fun _ store => some (.normal, (node.value interp table store).2) := by
  obtain ⟨lbl, form⟩ := node
  rw [run, value, meaning_mk]
  cases form <;> first | rfl | cases h

@[simp] lemma armMeaning?_arm (cond? : Option Node) (body : Node) :
    (mk lbl (.arm cond? body)).armMeaning? interp table =
      some (cond?.map (·.value interp table), body.run interp table) := by
  rw [armMeaning?, meaning_mk]
  cases cond? <;> rfl

/-! ## The start of a loop -/

lemma run_loop_of_init {kind : LoopKind} {cond? step? : Option Node} {body : Node} {k : Nat} {store mid : Store}
    (h : Meaning.sequence (init?.toList.map (·.run interp table)) k store = some (.normal, mid)) :
    (mk lbl (.loop kind init? cond? step? body)).run interp table k store =
      loop kind (cond?.map (·.value interp table)) (step?.map (·.value interp table))
        (body.run interp table) k mid := by
  rw [run_loop, Meaning.sequence, h]
  exact congrFun (congrFun (sequence_singleton _) _) _

/-- The start of a loop ends normally. -/
lemma exists_run_of_isInit (h : ∀ init ∈ init?, init.IsInit) (store : Store) : ∃ last, ∀ k,
      Meaning.sequence (init?.toList.map (·.run interp table)) k store = some (.normal, last) := by
  have hdecl : ∀ {node : Node} (_ : node.form.isDeclare = true) (store : Store), ∃ last, ∀ k,
      node.run interp table k store = some (.normal, last) := by
    intro node hd store
    obtain ⟨lbl, form⟩ := node
    obtain ⟨sym, ini?, hform⟩ := Form.eq_declare_of_isDeclare hd
    obtain rfl : form = .declare sym ini? := hform
    rw [run_declare]
    cases ini? with
    | none => exact ⟨store, fun _ => rfl⟩
    | some initializer => exact ⟨_, fun _ => rfl⟩
  cases init? with
  | none => exact ⟨store, fun _ => rfl⟩
  | some init =>
    replace h := h init rfl
    rw [Option.toList_some, List.map_singleton, sequence_singleton]
    rcases isInit_iff.mp h with ⟨stmts, hform, hall⟩ | hd | he
    · obtain ⟨lbl, form⟩ := init
      obtain rfl : form = .block stmts := hform
      rw [run_block]
      clear h
      induction stmts generalizing store with
      | nil => exact ⟨store, fun _ => rfl⟩
      | cons first rest ih =>
        obtain ⟨mid, hmid⟩ := hdecl (hall first (.head _)) store
        obtain ⟨last, hlast⟩ := ih mid (List.forall_mem_cons.mp hall).2
        refine ⟨last, fun k => ?_⟩
        rw [List.map_cons, Meaning.sequence, hmid]
        exact hlast k
    · exact hdecl hd store
    · rw [run_expression he]
      exact ⟨_, fun _ => rfl⟩

/-! ## Labels -/

lemma meaning_erase (node : Node) : node.erase.meaning interp table = node.meaning interp table := by
  have halike : node.ActsAlike table Eq interp node.erase := by
    induction node with
    | mk lbl form ih =>
      have hown : form.Respects table Eq := by cases form <;> simp [Form.Respects, ReadsAlike, WritesAlike]
      rw [erase_mk]
      refine .map erase rfl hown (fun kid _ => ?_) fun kid hc => ih kid (Form.mem_children_of_evaluated hc)
      rw [form_erase, Form.var?_map]
  exact halike.eq.symm

lemma Alike.meaning_eq (h : a.Alike b) : a.meaning interp table = b.meaning interp table := by
  rw [← meaning_erase a, h, meaning_erase]

lemma Alike.value_eq (h : a.Alike b) : a.value interp table = b.value interp table := by
  rw [value, h.meaning_eq, value]

lemma Alike.run_eq (h : a.Alike b) : a.run interp table = b.run interp table := by
  rw [run, h.meaning_eq, run]

/-! ## Literals -/

lemma form_of_immediate? (h : node.immediate? = some value) : node.form = .immediate value := by
  rw [immediate?] at h
  cases hform : node.form <;> simp_all [Form.immediate?]

lemma value_of_immediate? (h : node.immediate? = some value) (store : Store) :
    node.value interp table store = (value, store) := by
  obtain ⟨lbl, form⟩ := node
  obtain rfl : form = .immediate value := form_of_immediate? h
  rw [value_immediate]

lemma immediate?_of_literalCondition? {b : Bool} (h : node.literalCondition? = some b) :
    node.immediate? = some (.bool b) := by
  rw [literalCondition?, Form.literalCondition?] at h
  obtain ⟨value, hval, hbool⟩ := Option.bind_eq_some_iff.mp h
  rw [immediate?, hval]
  cases value <;> simp_all [Value.toBool?]

lemma value_of_literalCondition? {b : Bool} (h : node.literalCondition? = some b) (store : Store) :
    node.value interp table store = (.bool b, store) :=
  value_of_immediate? (immediate?_of_literalCondition? h) store

end Node

end Shading
