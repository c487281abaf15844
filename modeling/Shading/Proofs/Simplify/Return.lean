import Shading.Proofs.Simplify.Preserved
import Shading.Proofs.Simplify.Outcome
import Shading.Proofs.Simplify.Scope
import Shading.Proofs.Simplify.Stops
import Shading.Proofs.Tree.Walk

/-!
# Every path returns

Of a function with a value that was simplified, no walk through the body ends
without a return, whatever its conditions give
(`Program.returns_of_simplify`).
-/

namespace Shading

variable {env : SimplifyEnv} {sym : SymbolId} {params : List SymbolId} {body : Node} {tbl : SymbolTable}

/-- What is left of the body of a function that was read. -/
structure FunctionLeft (table : SymbolTable) (symbol : SymbolId) (params : List SymbolId) (body : Node) :
    Prop where
  isBlock : body.form.isBlock = true
  typed : body.Typed table
  checked : body.Checked table (table.get symbol).type
  exits : body.exits = .never
  ends : (table.get symbol).type.isVoid = false → body.ends = true
  neat : body.Neat
  readable : body.Readable table .read
  inScope : body.Scoped table params

lemma FunctionRead.left_visited {seen : Node} {after : Facts} (hs : env.symbols.WellFormed)
    (h : FunctionRead env.symbols sym params body)
    (visit : Visits env ⟨some sym, false, .functionBody⟩ ⟨[], [], false⟩ body after seen)
    (ends : (env.symbols.get sym).type.isVoid = true ∨ after.unreachable = true) :
    FunctionLeft env.symbols sym params seen := by
  have hpreserved := visit.preserved (h.returnsType hs) .nothing h.typed
  have hflows := hpreserved.reached rfl
  refine ⟨hpreserved.isBlock h.isBlock, hpreserved.typed, hpreserved.checked, hflows.exits.2, fun hvoid => ?_,
    hflows.tidy.neat, hpreserved.readable h.readable, hflows.inScope _ h.inScope⟩
  rw [← hflows.ends]
  refine ends.resolve_left ?_
  rw [hvoid]
  exact Bool.false_ne_true

lemma FunctionLeft.eliminateDeadStores (h : FunctionLeft tbl sym params body) :
    FunctionLeft tbl sym params (eliminateDeadStores tbl body).node := by
  have hswept := sweptTo_eliminateDeadStores tbl body
  have hkept := hswept.kept h.typed
  exact ⟨hkept.standsIn.isBlock_eq.trans h.isBlock, hkept.typed, hkept.checked h.checked,
    hkept.flow.exits_eq.trans h.exits, fun hvoid => hkept.flow.ends (h.ends hvoid), hswept.neat h.typed h.neat,
    hkept.readable h.readable, scoped_sweepUpTo body.size h.typed h.inScope⟩

lemma FunctionSimplifies.left {fn rewritten : Node} (hs : env.symbols.WellFormed)
    (hread : ∃ sym params body, fn.form = .function sym params body ∧
      FunctionRead env.symbols sym params body)
    (h : FunctionSimplifies env fn rewritten) : ∃ sym params body,
      rewritten.form = .function sym params body ∧ FunctionLeft env.symbols sym params body := by
  obtain ⟨sym, params, body, hform, hfn⟩ := hread
  cases h with
  | mk visit ends =>
    cases hform
    have hleft := hfn.left_visited hs visit ends
    refine ⟨_, _, _, rfl, ?_⟩
    split
    · exact hleft.eliminateDeadStores
    · exact hleft

/-- What is left of each function of a program. -/
lemma Program.functionLeft_of_simplify {src : Source} {layout : Layout} {prog : Program} {options : Options}
    {done : Simplified} (hl : layout.Built) (hparse : Program.parse src layout = .ok prog)
    (hsimp : prog.simplify options = .ok done) :
    done.program.symbols = prog.symbols ∧ ∀ fn ∈ done.program.functions, ∃ sym params body,
        fn.form = .function sym params body ∧ FunctionLeft prog.symbols sym params body := by
  have hread := Program.wellRead_of_parse hl hparse
  obtain ⟨hsyms, -, hfns⟩ := Program.simplify_ok hread.typedFunction hread.isProgram hsimp
  refine ⟨hsyms, fun rewritten hm => ?_⟩
  obtain ⟨i, hi, rfl⟩ := List.mem_iff_getElem.mp hm
  have hi' : i < prog.functions.length := hfns.length_eq ▸ hi
  have hsimplifies : FunctionSimplifies ⟨options, prog.symbols⟩ prog.functions[i] done.program.functions[i] :=
    hfns.get hi' hi
  exact hsimplifies.left hread.symbols (hread.functions _ (List.getElem_mem hi'))

/-! ## Returns -/

namespace Node

/-- Whatever its conditions give, a body goes on or returns. -/
def AlwaysReturns (body : Node) : Prop :=
  ∀ choices rounds taken, body.walk choices rounds taken = none ∨
    ∃ value? last, body.walk choices rounds taken = some (.returns value?, last)

/-- Every return below the node has a value of a type, or none where the type
has no values. -/
def ReturnsOf (type : ValueType) (body : Node) : Prop :=
  ∀ node ∈ body.preorder, ∀ value?, node.form = .returnValue value? →
    if type.isVoid then value? = none else ∃ value, value? = some value ∧ value.type = type

lemma alwaysReturns_of_ends (ht : body.Typed tbl)
    (hb : body.form.isBlock = true) (hexits : body.exits = .never) (hends : body.ends = true) :
    body.AlwaysReturns := by
  intro choices k taken
  have harm : body.form.isArm = false := by
    obtain ⟨stmts, hform⟩ := Form.eq_block_of_isBlock hb
    rw [hform]
    rfl
  cases h : body.walk choices k taken with
  | none => exact .inl rfl
  | some res =>
    obtain ⟨completion, last⟩ := res
    have hallows := allows_of_walk ht harm h
    cases completion with
    | normal => rw [Allows, hends] at hallows; cases hallows
    | breaks | continues => rw [Allows, hexits] at hallows; cases hallows
    | returns value? => exact .inr ⟨value?, last, rfl⟩

lemma returnsOf_of_checked {type : ValueType} (h : body.Checked tbl type) : body.ReturnsOf type := by
  intro node hm value? hform
  have hrule : CheckRule tbl type node := h node hm
  rw [CheckRule, hform] at hrule
  obtain ⟨hsome, htype⟩ := hrule
  split
  · rename_i hvoid
    rw [hvoid] at hsome
    exact Option.isSome_eq_false_iff.mp hsome |> Option.isNone_iff_eq_none.mp
  · rename_i hvoid
    rw [Bool.not_eq_true] at hvoid
    rw [hvoid] at hsome
    obtain ⟨val, rfl⟩ := Option.isSome_iff_exists.mp hsome
    exact ⟨val, rfl, htype val rfl⟩

end Node

/-- Control leaves a function with a value only by a return, and every return
fits its function. -/
theorem Program.returns_of_simplify {source : Source} {layout : Layout} {program : Program} {options : Options}
    {simplified : Simplified} (hl : layout.Built) (hparse : Program.parse source layout = .ok program)
    (hsimplify : program.simplify options = .ok simplified) :
    ∀ function ∈ simplified.program.functions, ∃ symbol parameters body,
      function.form = .function symbol parameters body ∧
        ((simplified.program.symbols.get symbol).type.isVoid = false → body.AlwaysReturns) ∧
        body.ReturnsOf (simplified.program.symbols.get symbol).type := by
  obtain ⟨hsymbols, hfunctions⟩ := Program.functionLeft_of_simplify hl hparse hsimplify
  intro function hm
  obtain ⟨symbol, parameters, body, hform, hleft⟩ := hfunctions function hm
  rw [hsymbols]
  exact ⟨symbol, parameters, body, hform,
    fun hvoid => Node.alwaysReturns_of_ends hleft.typed hleft.isBlock hleft.exits (hleft.ends hvoid),
    Node.returnsOf_of_checked hleft.checked⟩

/-- Arms of which one always runs, a loop without end and a body that is never
left by its test. -/
def Source.manyReturns : Source := ⟨.memory, ("void note(int n) \x7b if (n > 0) \x7b return; \x7d g = n; \x7d " ++
  "int main() \x7b if (g < 0) \x7b return 1; \x7d else if (true) \x7b while (true) \x7b " ++
  "if (g > 3) \x7b return 2; \x7d g = g + 1; \x7d \x7d else \x7b g = 0; \x7d " ++
  "do \x7b return 3; \x7d while (g > 0); \x7d").toList⟩

theorem Program.returns_of_simplify_manyReturns : ∃ program simplified,
    Program.parse .manyReturns .twoWords = .ok program ∧ program.simplify .standard = .ok simplified ∧
      simplified.program.functions.length = 2 ∧
      ∀ function ∈ simplified.program.functions, ∃ symbol parameters body,
        function.form = .function symbol parameters body ∧
          ((simplified.program.symbols.get symbol).type.isVoid = false → body.AlwaysReturns) ∧
          body.ReturnsOf (simplified.program.symbols.get symbol).type := by
  obtain ⟨program, simplified, hparse, hsimplify, hlength⟩ :=
    Source.exists_of_simplifiesTo (by decide +kernel :
      Source.manyReturns.simplifiesTo .twoWords .standard
        (fun _ simplified => simplified.program.functions.length = 2) = true)
  exact ⟨program, simplified, hparse, hsimplify, of_decide_eq_true hlength,
    Program.returns_of_simplify Layout.built_twoWords hparse hsimplify⟩

end Shading
