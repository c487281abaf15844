import Mathlib.Tactic.Lemma
import Shading.Lowering.Statement

/-!
# How trees are lowered

`Node.lowered` is what lowering makes of a node, with an equation in terms of
its children.  `Program.lowering_cases` says the same of programs.
-/

namespace Shading

namespace Node

/-- What lowering makes of a node. -/
def lowered (table : SymbolTable) (node : Node) : Lowered := node.fold (Lower.lowerForm table)

variable (tbl : SymbolTable) (lbl : Label) (form : Form Node)

lemma lowered_mk : (mk lbl form).lowered tbl =
    { node := mk lbl form
      expression := Lower.expression tbl lbl (form.map (lowered tbl))
      statement := Lower.statement tbl lbl (form.map (lowered tbl))
      arm? := match form.map (lowered tbl) with
        | .arm cond? body => some (cond?.map (·.expression), body.statement)
        | _ => none } := by
  have hnodes : (form.map fun kid => (kid, kid.lowered tbl)).map Prod.fst = form := by
    rw [Form.map_map]
    exact form.map_id
  have hkids : (form.map fun kid => (kid, kid.lowered tbl)).map Prod.snd = form.map (lowered tbl) :=
    Form.map_map ..
  have hfold : (mk lbl form).lowered tbl = Lower.lowerForm tbl lbl (form.map fun kid => (kid,
      kid.lowered tbl)) := by
    rw [lowered, fold_mk]
    rfl
  unfold Lower.lowerForm at hfold
  rw [hnodes, hkids] at hfold
  exact hfold

@[simp] lemma node_lowered (node : Node) : (node.lowered tbl).node = node := by
  cases node with
  | mk lbl form => rw [lowered_mk]

lemma expression_lowered : ((mk lbl form).lowered tbl).expression =
    Lower.expression tbl lbl (form.map (lowered tbl)) := by rw [lowered_mk]

lemma statement_lowered : ((mk lbl form).lowered tbl).statement =
    Lower.statement tbl lbl (form.map (lowered tbl)) := by rw [lowered_mk]

/-- Only an arm has the parts of one. -/
lemma arm?_lowered (node : Node) : (node.lowered tbl).arm? = match node.form with
    | .arm cond? body => some (cond?.map fun cond => (cond.lowered tbl).expression, (body.lowered tbl).statement)
    | _ => none := by
  cases node with
  | mk lbl form =>
    rw [lowered_mk]
    cases form with
    | arm cond? body => simp [Form.map, Function.comp_def]
    | _ => rfl

end Node

namespace Lower

/-! ## Codes are pure -/

lemma isPure_arithmeticCode (base : Base) (int : IntCode) (float : FloatCode) :
    (arithmeticCode base int float).isPure = true := by
  cases base <;> rfl

lemma isPure_bitwiseCode (base : Base) (int : IntCode) (bits : BitCode) :
    (bitwiseCode base int bits).isPure = true := by
  cases base <;> rfl

lemma isPure_operationCode (op : BinaryOp) (base : Base) : (operationCode op base).isPure = true := by
  cases op <;> first | rfl | exact isPure_arithmeticCode .. | exact isPure_bitwiseCode ..

lemma isPure_of_intrinsicCode? {code : InstCode} {f : Intrinsic} {base : Base}
    (h : intrinsicCode? f base = some code) : code.isPure = true := by
  cases f <;> cases base <;> cases h <;> rfl

end Lower

/-- The state in which lowering a body starts. -/
def LoweringState.start (limit? : Option Nat) : Except IrError LoweringState :=
  match Builder.create 1 limit? with
  | .error error => .error error
  | .ok ir =>
    match Build.initEntry.run.run ir with
    | (.error error, _) => .error error
    | (.ok entry, ir) =>
      match ir.dataSlot? 0 with
      | none => .error (.invalidState .missingDataSlot)
      | some base => .ok ⟨ir, base, entry, false, [], []⟩

namespace Program

def lowerBody (table : SymbolTable) (body : Node) : Except IrError LoweringState →
    Except LoweringError LoweringState
  | .error error => .error (.ir error)
  | .ok start => ((Lower.entryBody table body).run start).map Prod.snd

/-- What `lowering` does. -/
lemma lowering_cases (prog : Program) :
    prog.entryFunction? = none ∧ (∀ lim?, prog.lowering lim? = .error .missingMain) ∨
    (∃ fn first rest body, prog.entryFunction? = some (fn, first :: rest, body) ∧
      ∀ lim?, prog.lowering lim? = .error (.unsupported .entryParameters fn.span)) ∨
    ∃ fn body, prog.entryFunction? = some (fn, [], body) ∧
      ∀ lim?, prog.lowering lim? = lowerBody prog.symbols body (LoweringState.start lim?) := by
  unfold lowering
  cases prog.entryFunction? with
  | none => exact .inl ⟨rfl, fun _ => rfl⟩
  | some found =>
    obtain ⟨fn, _ | ⟨first, rest⟩, body⟩ := found
    · refine .inr (.inr ⟨fn, body, rfl, fun lim? => ?_⟩)
      unfold LoweringState.start
      cases Builder.create 1 lim? with
      | error error => rfl
      | ok ir =>
        have hok : (Except.ok ir : Except IrError Builder).mapError LoweringError.ir = .ok ir := rfl
        dsimp only
        rw [hok, if_neg (by decide)]
        simp only [Except.bind, bind]
        rcases Build.initEntry.run.run ir with ⟨_ | entry, later⟩
        · rfl
        · dsimp only
          cases later.dataSlot? 0 with
          | none => rfl
          | some base =>
            dsimp only [lowerBody]
            cases (Lower.entryBody prog.symbols body).run ⟨later, base, entry, false, [], []⟩ <;> rfl
    · exact .inr (.inl ⟨fn, first, rest, body, rfl, fun _ => rfl⟩)

lemma lowering_of_lower {prog : Program} {lim? : Option Nat} {ir : Builder} (h : prog.lower lim? = .ok ir) :
    ∃ st, prog.lowering lim? = .ok st ∧ st.builder = ir := by
  unfold lower at h
  cases hlow : prog.lowering lim? <;> rw [hlow] at h <;> cases h
  exact ⟨_, rfl, rfl⟩

lemma lowering_of_error {prog : Program} {lim? : Option Nat} {error : LoweringError}
    (h : prog.lower lim? = .error error) : prog.lowering lim? = .error error := by
  unfold lower at h
  cases hlow : prog.lowering lim? <;> rw [hlow] at h <;> cases h
  rfl

end Program

end Shading
