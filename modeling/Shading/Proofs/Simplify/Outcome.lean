import Shading.Proofs.Parse.Program
import Shading.Proofs.Simplify.Pass
import Shading.Proofs.Simplify.Runs

/-!
# Folding keeps outcomes

Computing constants and putting known values in the place of locals changes no
outcome of a function over words, whatever division by zero and the functions
that it calls do (`Program.sameOutcome_simplify`).
-/

namespace Shading

variable {body : Node} {tbl : SymbolTable} {sym : SymbolId} {params : List SymbolId}

/-- The symbol and the body of a function. -/
def Form.function? {α : Type} : Form α → Option (SymbolId × α)
  | .function sym _ body => some (sym, body)
  | _ => none

namespace Node

/-- A function over words, which returns a word or nothing. -/
def OverWords (table : SymbolTable) (fn : Node) : Prop :=
  ∀ parts ∈ fn.form.function?.toList,
    ((table.get parts.1).type.IsWord ∨ (table.get parts.1).type.isVoid = true) ∧ parts.2.Words table

instance (tbl : SymbolTable) (fn : Node) : Decidable (fn.OverWords tbl) :=
  inferInstanceAs (Decidable (∀ parts ∈ fn.form.function?.toList, _))

/-- A body does what another one does in every store: it leaves the same memory
and returns the same value, or runs forever like it. -/
def SameOutcome (interp : Interpretation) (table : SymbolTable) (body other : Node) : Prop :=
  ∀ store, (∀ memory value?, other.Finishes interp table store memory value? ↔
      body.Finishes interp table store memory value?) ∧
    (other.Diverges interp table store ↔ body.Diverges interp table store)

lemma SameOutcome.of_run_eq {sem : Interpretation} {other : Node} (h : other.run sem tbl = body.run sem tbl) :
    SameOutcome sem tbl body other := by
  intro σ
  rw [Diverges, Diverges, h]
  refine ⟨fun mem value? => ?_, Iff.rfl⟩
  rw [Finishes, Finishes, h]

end Node

/-- A program all of whose functions are over words. -/
def Program.OverWords (prog : Program) : Prop :=
  ∀ fn ∈ prog.functions, fn.OverWords prog.symbols

instance (prog : Program) : Decidable prog.OverWords :=
  inferInstanceAs (Decidable (∀ fn ∈ prog.functions, _))

/-! ## Functions -/

/-- A function that was read returns values of a type that can be written. -/
lemma FunctionRead.returnsType (hs : tbl.WellFormed) (h : FunctionRead tbl sym params body) :
    ReturnsType tbl (tbl.get sym).type (some sym) := by
  refine ⟨hs, h.wellFormed.valid_of_isFunction h.isFunction, ?_⟩
  rintro _ ⟨⟩
  rfl

lemma FunctionRead.run_visited (sem : Interpretation) {env : SimplifyEnv}
    {seen : Node} {after : Facts} (hs : env.symbols.WellFormed)
    (h : FunctionRead env.symbols sym params body)
    (hr : (env.symbols.get sym).type.IsWord ∨ (env.symbols.get sym).type.isVoid = true)
    (hw : body.Words env.symbols)
    (visit : Visits env ⟨some sym, false, .functionBody⟩ ⟨[], [], false⟩ body after seen) :
    seen.run sem env.symbols = body.run sem env.symbols := by
  funext k σ
  exact (Visits.sameRun sem visit ⟨h.returnsType hs, hr⟩ .nothing ⟨h.typed, hw, h.inScope⟩ rfl σ
    .nothing).run_eq k

/-- Every function of a program that was read is typed. -/
lemma Program.WellRead.typedFunction {prog : Program} {layout : Layout} (h : prog.WellRead layout) :
    ∀ fn ∈ prog.functions, TreePass.TypedFunction prog.symbols fn := by
  intro fn hm
  obtain ⟨sym, params, body, hform, hfn⟩ := h.functions fn hm
  have hbody : body ∈ fn.form.children := by
    rw [hform]
    exact .head _
  exact ⟨sym, params, body, hform, hfn.isBlock, (h.numbered.linked.child hm).child hbody, hfn.typed⟩

/-- A function, what is left of it, and that both do the same. -/
def Node.SameFunction (interp : Interpretation) (table : SymbolTable) (fn rewritten : Node) : Prop :=
  ∃ label sym params body visited, fn = .mk label (.function sym params body) ∧
    rewritten = .mk label (.function sym params visited) ∧
    Node.SameOutcome interp table body visited

lemma FunctionSimplifies.sameFunction (sem : Interpretation) {env : SimplifyEnv} {fn rewritten : Node}
    (heliminate : env.options.eliminate = false) (hs : env.symbols.WellFormed)
    (hread : ∃ sym params body, fn.form = .function sym params body ∧
      FunctionRead env.symbols sym params body)
    (hwords : fn.OverWords env.symbols) (h : FunctionSimplifies env fn rewritten) :
    fn.SameFunction sem env.symbols rewritten := by
  obtain ⟨sym, params, body, hform, hfn⟩ := hread
  cases h with
  | mk visit ends =>
    cases hform
    rw [if_neg (by rw [heliminate]; exact Bool.false_ne_true)]
    obtain ⟨hres, hbody⟩ := hwords _ (Option.mem_toList.mpr rfl)
    exact ⟨_, _, _, _, _, rfl, rfl, .of_run_eq (hfn.run_visited sem hs hres hbody visit)⟩

/-- Folding changes no outcome of any function. -/
theorem Program.sameOutcome_simplify (interpretation : Interpretation) {source : Source} {layout : Layout}
    {program : Program} {options : Options} {simplified : Simplified} (hl : layout.Built)
    (hparse : Program.parse source layout = .ok program) (hwords : program.OverWords)
    (heliminate : options.eliminate = false) (hsimplify : program.simplify options = .ok simplified) :
    simplified.program.symbols = program.symbols ∧
      List.Forall₂ (Node.SameFunction interpretation program.symbols) program.functions
        simplified.program.functions := by
  have hread := Program.wellRead_of_parse hl hparse
  obtain ⟨hsymbols, -, hfunctions⟩ := Program.simplify_ok hread.typedFunction hread.isProgram hsimplify
  let env : SimplifyEnv := ⟨options, program.symbols⟩
  have hboth : List.Forall₂ (fun function rewritten => function ∈ program.functions ∧
      FunctionSimplifies env function rewritten) program.functions simplified.program.functions :=
    (List.forall₂_and_left _ _).mpr ⟨fun function hm => hm, hfunctions⟩
  refine ⟨hsymbols, hboth.imp fun function rewritten ⟨hm, h⟩ => ?_⟩
  change Node.SameFunction interpretation env.symbols function rewritten
  exact h.sameFunction interpretation heliminate hread.symbols (hread.functions function hm) (hwords function hm)

/-! ## A case -/

/-- Whether a text is read and simplified to programs that pass a test. -/
def Source.simplifiesTo (source : Source) (layout : Layout) (options : Options)
    (test : Program → Simplified → Bool) :
    Bool :=
  match Program.parse source layout with
  | .error _ => false
  | .ok prog =>
    match prog.simplify options with
    | .error _ => false
    | .ok done => test prog done

lemma Source.exists_of_simplifiesTo {src : Source} {layout : Layout} {options : Options}
    {test : Program → Simplified → Bool} (h : src.simplifiesTo layout options test = true) :
    ∃ prog done, Program.parse src layout = .ok prog ∧ prog.simplify options = .ok done ∧
      test prog done = true := by
  unfold simplifiesTo at h
  split at h
  · cases h
  · rename_i prog hparse
    split at h
    · cases h
    · rename_i done hsimp
      exact ⟨prog, done, hparse, hsimp, h⟩

/-- Division by zero gives zero and calls change nothing. -/
def Interpretation.quiet : Interpretation := ⟨fun _ _ => 0, fun _ _ memory => (0, memory), fun _ value => value⟩

/-- `g:int:rw @ret:int:wo`. -/
def Layout.twoWords : Layout := ⟨[⟨"g", .int, 0, .readWrite⟩, ⟨resultName, .int, 4, .writeOnly⟩], 8⟩

lemma Layout.built_twoWords : twoWords.Built := by
  let g : Member := ⟨"g", .int, 0, .readWrite⟩
  have hg : empty.add "g" .int .readWrite = .ok (g, ⟨[g], 4⟩) := by decide +kernel
  have hres : (⟨[g], 4⟩ : Layout).add resultName .int .writeOnly =
      .ok (⟨resultName, .int, 4, .writeOnly⟩, twoWords) := by decide +kernel
  exact .add (.add .empty (ValueType.valid_scalar .int) hg) (ValueType.valid_scalar .int) hres

/-- A loop whose bound is known and whose body forgets a local. -/
def Source.knownBound : Source := ⟨.memory, ("int f(int n) \x7b return n; \x7d " ++
  "int main() \x7b int x = 2; int y = x * 3; while (g < y) \x7b g = g + f(x); " ++
  "if (g == 4) \x7b x = 1; continue; \x7d \x7d return y / g; \x7d").toList⟩

theorem Program.sameOutcome_simplify_knownBound : ∃ program simplified,
    Program.parse .knownBound .twoWords = .ok program ∧ program.OverWords ∧
      program.simplify ⟨true, false, none⟩ = .ok simplified ∧ simplified.program.symbols = program.symbols ∧
      List.Forall₂ (Node.SameFunction .quiet program.symbols) program.functions simplified.program.functions := by
  obtain ⟨program, simplified, hparse, hsimplify, hwords⟩ :=
    Source.exists_of_simplifiesTo (by decide +kernel :
      Source.knownBound.simplifiesTo .twoWords ⟨true, false, none⟩ (fun program _ => decide program.OverWords) =
      true)
  have hwords := of_decide_eq_true hwords
  exact ⟨program, simplified, hparse, hwords, hsimplify,
    Program.sameOutcome_simplify .quiet Layout.built_twoWords hparse hwords rfl hsimplify⟩

end Shading
