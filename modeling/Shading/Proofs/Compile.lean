import Mathlib.Tactic.Lemma
import Shading.Compile

/-!
# Compiles stage by stage

`compile_eq` says what a compile gives, with the stages written out.
-/

namespace Shading

namespace Outcome

/-- A stage failed; its error is reported once. -/
def failed (error : CompileError) : Outcome := ⟨.error error, [error.diagnostic]⟩

def done (simplified : Simplified) (ir : Builder) :
    Outcome := ⟨.ok ⟨simplified.program, simplified.summaries, ir⟩, []⟩

/-- The last stage. -/
def pruned (simplified : Simplified) (ir : Builder) (options : Options) : Outcome :=
  if options.eliminate then
    match ir.prune with
    | .error error => failed (.prune error)
    | .ok (_, ir) => done simplified ir
  else
    done simplified ir

end Outcome

/-- Simplifying reports what the compile would report of its error. -/
lemma adapt_simplifyReporting (prog : Program) (options : Options) :
    (prog.simplifyReporting options).adapt CompileError.simplify = Compile.stage .simplify
    (prog.simplify options) := by
  rw [Program.simplifyReporting]
  cases prog.simplify options <;> rfl

lemma compile_eq (src : Source) (layout : Layout) (options : Options) : compile src layout options =
    match Program.parse src layout with
    | .error error => .failed (.parse error)
    | .ok prog =>
      match prog.simplify options with
      | .error error => .failed (.simplify error)
      | .ok out =>
        match out.program.lower options.limit? with
        | .error error => .failed (.lower error)
        | .ok ir => .pruned out ir options := by
  -- A stage that succeeds hands its result on and reports nothing.
  let last (out : Simplified) (ir : Builder) : Compile Compilation := do
    return ⟨out.program, out.summaries, ← Compile.pruned ir options⟩
  let code (out : Simplified) : Compile Compilation := do
    last out (← Compile.stage .lower (out.program.lower options.limit?))
  unfold compile Compile.source
  cases Program.parse src layout with
  | error error => rfl
  | ok prog =>
    change Outcome.mk (Compile.program prog options).outcome.1 (Compile.program prog options).outcome.2 = _
    unfold Compile.program
    rw [adapt_simplifyReporting]
    dsimp only
    cases prog.simplify options with
    | error error => rfl
    | ok out =>
      change Outcome.mk (code out).outcome.1 (code out).outcome.2 = _
      dsimp only [code]
      cases out.program.lower options.limit? with
      | error error => rfl
      | ok ir =>
        change Outcome.mk (last out ir).outcome.1 (last out ir).outcome.2 = _
        dsimp only [last, Outcome.pruned, Compile.pruned]
        split
        · cases ir.prune <;> rfl
        · rfl

/-- The stages of a compile that succeeds. -/
structure CompilesTo (source : Source) (layout : Layout) (options : Options) (program : Program)
    (simplified : Simplified) (lowered final : Builder) : Prop where
  parse : Program.parse source layout = .ok program
  simplify : program.simplify options = .ok simplified
  lower : simplified.program.lower options.limit? = .ok lowered
  final : final = lowered ∨ ∃ removed, lowered.prune = .ok (removed, final)

lemma compilesTo_of_compile {src : Source} {layout : Layout} {options : Options} {compilation : Compilation}
    (h : (compile src layout options).result = .ok compilation) :
    ∃ prog out lowered, CompilesTo src layout options prog out lowered compilation.builder := by
  rw [compile_eq] at h
  cases hparse : Program.parse src layout with
  | error error =>
    rw [hparse] at h
    cases h
  | ok prog =>
    rw [hparse] at h
    dsimp only at h
    cases hsimp : prog.simplify options with
    | error error =>
      rw [hsimp] at h
      cases h
    | ok out =>
      rw [hsimp] at h
      dsimp only at h
      cases hlower : out.program.lower options.limit? with
      | error error =>
        rw [hlower] at h
        cases h
      | ok lowered =>
        rw [hlower] at h
        refine ⟨prog, out, lowered, hparse, hsimp, hlower, ?_⟩
        dsimp only [Outcome.pruned] at h
        split at h
        · split at h
          · cases h
          · rename_i removed final hprune
            cases h
            exact .inr ⟨removed, hprune⟩
        · cases h
          exact .inl rfl

end Shading
