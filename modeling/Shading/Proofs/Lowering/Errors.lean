import Mathlib.Algebra.Group.Nat.Defs
import Shading.Proofs.Lowering.Program
import Shading.Proofs.Lowering.Room

/-!
# Errors of lowering

Programs that the simplifier leaves are lowered, or use something that has no
code (`Program.rejects_of_lower`).  No error of a checked program says that the
builder or the tree is not as it should be.
-/

namespace Shading

/-- What the code of a program cannot do: the errors that lowering gives.
Slots are numbered by 32 bits, which only the code of more than a hundred
million nodes uses up. -/
inductive Program.Rejects (prog : Program) (limit? : Option Nat) : LoweringError → Prop
  | missingMain (h : prog.entryFunction? = none) : Rejects prog limit? .missingMain
  | parameters {fn : Node} {first : SymbolId} {rest : List SymbolId} {body : Node}
      (h : prog.entryFunction? = some (fn, first :: rest, body)) :
      Rejects prog limit? (.unsupported .entryParameters fn.span)
  | missingResult (span : Span) : Rejects prog limit? (.missingResult span)
  | swizzle (field : String) (span : Span) : Rejects prog limit? (.unsupported (.swizzle field) span)
  | call (callee : SymbolId) (span : Span) (h : (prog.symbols.get callee).isFunction = true ∨
      ∃ f, (prog.symbols.get callee).kind = .intrinsic f ∧ f.isTranscendental = true) :
      Rejects prog limit? (.unsupported (.call (prog.symbols.get callee).name) span)
  | vectorComparison (span : Span) : Rejects prog limit? (.unsupported .vectorComparison span)
  | vectorStep (op : UnaryOp) (type : ValueType) (span : Span) (h : type.isVector = true) :
      Rejects prog limit? (.unsupported (.stepOfType op type) span)
  | operandEffect (op : BinaryOp) (span : Span) (h : op.operatorClass = .logical) :
      Rejects prog limit? (.unsupported (.operandEffect op) span)
  | move (width : Nat) (h : width = 12 ∨ width = 24) :
      Rejects prog limit? (.ir (.invalidState (.unmovable width width)))
  | fetch (width : Nat) (h : width = 12 ∨ width = 24) :
      Rejects prog limit? (.ir (.invalidState (.unfetchable width)))
  | store (width : Nat) (h : width = 12 ∨ width = 24) :
      Rejects prog limit? (.ir (.invalidState (.unstorable width)))
  | memory (h : limit?.isSome = true ∨ ∃ fn body, prog.entryFunction? = some (fn, [], body) ∧
      2 ^ 32 ≤ 24 * body.size + 4) : Rejects prog limit? (.ir .outOfMemory)

namespace Program

variable {prog : Program} {lim? : Option Nat}

/-- Errors of the body of the entry function. -/
lemma Rejects.of_expected {error : LoweringError} (h : error.Expected prog.symbols False)
    (hlower : prog.lower lim? = .error error) : prog.Rejects lim? error := by
  cases h with
  | memory => exact .memory (limited_of_lower hlower)
  | missingResult span => exact .missingResult span
  | swizzle field span => exact .swizzle field span
  | call callee span h => exact .call callee span h
  | vectorComparison span => exact .vectorComparison span
  | vectorStep op type span h => exact .vectorStep op type span h
  | operandEffect op span h => exact .operandEffect op span h
  | move width h => exact .move width h
  | fetch width h => exact .fetch width h
  | store width h => exact .store width h
  | undeclared name span h => exact h.elim

lemma rejects_of_left {tbl : SymbolTable} (hsyms : prog.symbols = tbl)
    (hleft : ∀ fn ∈ prog.functions, ∃ sym params body,
      fn.form = .function sym params body ∧ FunctionLeft tbl sym params body) (lim? : Option Nat) :
    (∃ ir, prog.lower lim? = .ok ir) ∨ ∃ error, prog.lower lim? = .error error ∧ prog.Rejects lim? error := by
  cases hlower : prog.lower lim? with
  | ok ir => exact .inl ⟨ir, rfl⟩
  | error error =>
    refine .inr ⟨error, rfl, ?_⟩
    have hlow := lowering_of_error hlower
    rcases prog.lowering_cases with ⟨hmain, hrun⟩ | ⟨fn, first, rest, body, hmain, hrun⟩ |
      ⟨fn, body, hmain, hrun⟩ <;>
      rw [hrun] at hlow
    · cases hlow
      exact .missingMain hmain
    · cases hlow
      exact .parameters hmain
    · obtain ⟨hm, sym, hform⟩ := form_of_entryFunction? hmain
      obtain ⟨sym', params, body', hform', hbody⟩ := hleft fn hm
      cases hform.symm.trans hform'
      have hlowerable := hbody.lowerableBody (body.permitted_all)
      rw [← hsyms] at hlowerable
      have hreturns : Lower.Returns prog.symbols .all := fun _ _ _ => trivial
      exact .of_expected ((lowerBody_cases hreturns hlowerable lim?).2 error hlow) hlower

/-- Programs that were read and simplified are lowered, or have in them what
cannot be lowered. -/
theorem rejects_of_lower {source : Source} {layout : Layout} {program : Program} {options : Options}
    {simplified : Simplified}
    (hl : layout.Built) (hparse : Program.parse source layout = .ok program)
    (hsimplify : program.simplify options = .ok simplified) :
    (∃ builder, simplified.program.lower options.limit? = .ok builder) ∨
      ∃ error, simplified.program.lower options.limit? = .error error ∧
      simplified.program.Rejects options.limit? error := by
  obtain ⟨hsymbols, hleft⟩ := Program.functionLeft_of_simplify hl hparse hsimplify
  exact rejects_of_left hsymbols hleft options.limit?

end Program

/-- A loop whose test nothing jumps to, and a call. -/
def Source.callBehindLoop : Source := ⟨.memory, ("int f() \x7b return g; \x7d int main() \x7b int n = 1; " ++
  "do \x7b if (g > 3) break; else return g; \x7d while (g < 9); n = f(); return n; \x7d").toList⟩

theorem Program.rejects_of_lower_callBehindLoop : ∃ program simplified,
    Program.parse .callBehindLoop .twoWords = .ok program ∧ program.simplify .standard = .ok simplified ∧
      (∀ span, simplified.program.lower none ≠ .error (.unsupported .strayJump span)) ∧
      ∃ error, simplified.program.lower none = .error error ∧ simplified.program.Rejects none error := by
  obtain ⟨program, simplified, hparse, hsimplify, hfails⟩ :=
    Source.exists_of_simplifiesTo (by decide +kernel :
      Source.callBehindLoop.simplifiesTo .twoWords .standard
        (fun _ simplified => (simplified.program.lower none).toOption.isNone) = true)
  have hcases := Program.rejects_of_lower Layout.built_twoWords hparse hsimplify
  have hlimit : Options.standard.limit? = none := rfl
  rw [hlimit] at hcases
  rcases hcases with ⟨builder, hlower⟩ | hrejects
  · rw [hlower] at hfails
    cases hfails
  · refine ⟨program, simplified, hparse, hsimplify, fun span hlower => ?_, hrejects⟩
    obtain ⟨error, hlower', hrejects⟩ := hrejects
    rw [hlower] at hlower'
    cases hlower'
    cases hrejects

end Shading
