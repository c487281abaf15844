import Shading.Ir.Prune
import Shading.Lowering.Statement
import Shading.Parse.Program
import Shading.Simplify.Program

/-!
# Compiling a text

Parse, simplify, lower, prune.  The first error is reported and stops the
compile.  Simplifying reports its error itself.
-/

namespace Shading

inductive CompileError where
  | parse (error : ParseError)
  | simplify (error : SimplifyError)
  | lower (error : LoweringError)
  | prune (error : IrError)
deriving DecidableEq

def CompileError.diagnostic : CompileError → Diagnostic
  | .parse error => error.diagnostic
  | .simplify error => error.diagnostic
  | .lower error => error.diagnostic
  | .prune error => error.diagnostic

/-- The program as it was lowered, what simplifying did to each function, and
the code. -/
structure Compilation where
  program : Program
  summaries : List FunctionSummary
  builder : Builder

abbrev Compile := Reporting CompileError

namespace Compile

/-- The result of a stage, whose error is reported. -/
def stage {ε α : Type} (wrap : ε → CompileError) (result : Except ε α) : Compile α :=
  Reporting.ofResult CompileError.diagnostic (result.mapError wrap)

/-- Removes dead instructions if the options ask for it. -/
def pruned (builder : Builder) (options : Options) : Compile Builder := do
  if options.eliminate then
    let (_, builder) ← stage .prune builder.prune
    return builder
  else
    return builder

/-- Everything behind the parser. -/
def program (program : Program) (options : Options) : Compile Compilation := do
  let simplified ← (program.simplifyReporting options).adapt .simplify
  let builder ← stage .lower (simplified.program.lower options.limit?)
  return ⟨simplified.program, simplified.summaries, ← pruned builder options⟩

def source (source : Source) (layout : Layout) (options : Options) : Compile Compilation := do
  let program ← stage .parse (Program.parse source layout)
  Compile.program program options

end Compile

/-- What a compile leaves. -/
structure Outcome where
  result : Except CompileError Compilation
  reported : List Diagnostic

def compile (source : Source) (layout : Layout) (options : Options) : Outcome :=
  let (result, reported) := (Compile.source source layout options).outcome
  ⟨result, reported⟩

/-- All reports, one after another. -/
def Outcome.reportText (outcome : Outcome) (source : Source) (color : Bool) : String :=
  String.join (outcome.reported.map (·.render source color))

end Shading
