import Shading.Proofs.Simplify.Return

/-!
# Programs that are only checked

`Program.validated_of_simplify`: with both options off, statements that are not
reached go, results and arguments get the casts they need, and the rest stays.
-/

namespace Shading

open List Node

variable {env : SimplifyEnv}

/-- What is left of a function. -/
def Node.validatedFunction (table : SymbolTable) (function : Node) : Node :=
  match function.form with
  | .function symbol params body =>
    .mk function.label (.function symbol params (body.validated table (table.get symbol).type))
  | _ => function

lemma FunctionSimplifies.validated {functions results : List Node} (hs : env.symbols.WellFormed)
    (hfold : env.options.fold = false) (heliminate : env.options.eliminate = false)
    (hread : ∀ fn ∈ functions, ∃ sym params body, fn.form = .function sym params body ∧
      FunctionRead env.symbols sym params body)
    (h : List.Forall₂ (FunctionSimplifies env) functions results) :
    results.map unplaced = (functions.map (validatedFunction env.symbols)).map unplaced := by
  induction h with
  | nil => rfl
  | cons hfirst _ ih =>
    obtain ⟨visit, -⟩ := hfirst
    obtain ⟨sym, params, body, hform, hfn⟩ := hread _ (.head _)
    cases hform
    have hbody := (Visits.preserved visit (hfn.returnsType hs) .nothing hfn.typed).reached rfl
    rw [heliminate, if_neg Bool.false_ne_true]
    exact congrArg₂ List.cons (show Near false _ _
      from .mk rfl (congrArg (Form.function _ _) (hbody.validated hfold))) (ih (forall_mem_cons.mp hread).2)

/-- With both options off a program is only checked: up to numbers it is the
one that was read, without statements behind one that ends and with casts of
arguments and results, and every node belongs to the one above it. -/
theorem Program.validated_of_simplify {source : Source} {layout : Layout} {program : Program} {options : Options}
    {simplified : Simplified} (hl : layout.Built) (hparse : Program.parse source layout = .ok program)
    (hfold : options.fold = false) (heliminate : options.eliminate = false)
    (hsimplify : program.simplify options = .ok simplified) :
    simplified.program.symbols = program.symbols ∧ simplified.program.Numbered ∧
      simplified.program.root.unplaced = (Node.mk program.root.label
        (.program (program.functions.map (Node.validatedFunction program.symbols)))).unplaced := by
  have hread := Program.wellRead_of_parse hl hparse
  have hfunctions : ∀ function ∈ program.functions, ∃ symbol params body,
      function.form = .function symbol params body :=
    fun function hm => (hread.functions function hm).imp fun _ h => h.imp fun _ h => h.imp fun _ h => h.1
  obtain ⟨hsymbols, ⟨functions, hroot⟩, last, hpass, -⟩ :=
    Program.simplify_passes hfunctions hread.isProgram hsimplify
  refine ⟨hsymbols, hread.numbered.simplify hsimplify, ?_⟩
  have hleft := FunctionSimplifies.validated hread.symbols hfold heliminate hread.functions
    (hpass.simplifies hread.typedFunction)
  rw [Program.functions, hroot] at hleft
  rw [hroot]
  rw [unplaced_mk, unplaced_mk]
  exact congrArg (fun functions => Node.mk _ (.program functions)) hleft

/-- A result that is converted and a statement that is not reached. -/
def Source.convertedResult : Source :=
  ⟨.memory, "float half() \x7b return 1; g = 2; \x7d void main() \x7b \x7d".toList⟩

theorem Program.validated_of_simplify_convertedResult : ∃ program simplified,
    Program.parse .convertedResult .twoWords = .ok program ∧ program.simplify .unoptimized = .ok simplified ∧
      simplified.program.functions.map (fun function => function.children.map (·.children.length)) = [[1], [0]] ∧
      simplified.program.root.unplaced = (Node.mk program.root.label
        (.program (program.functions.map (Node.validatedFunction program.symbols)))).unplaced := by
  obtain ⟨program, simplified, hparse, hsimplify, hlengths⟩ :=
    Source.exists_of_simplifiesTo (by decide +kernel :
      Source.convertedResult.simplifiesTo .twoWords .unoptimized (fun _ simplified =>
        simplified.program.functions.map (fun function => function.children.map (·.children.length)) =
          [[1], [0]]) = true)
  exact ⟨program, simplified, hparse, hsimplify, of_decide_eq_true hlengths,
    (Program.validated_of_simplify Layout.built_twoWords hparse rfl rfl hsimplify).2.2⟩

end Shading
