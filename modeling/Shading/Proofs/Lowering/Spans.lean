import Shading.Proofs.Lowering.Invariant

/-!
# Spans of errors in lowering

An error that names a part of the text names the span of a node that is lowered
(`Program.spanned_lower`); errors of the builder name none.
-/

namespace Shading

variable {may : Span → Prop}

namespace Lower

variable {α : Type}

/-- An error of the action stands at an allowed span, if it names one. -/
def Spans (allowed : Span → Prop) (action : Lower α) (st : LoweringState) : Prop :=
  ∀ error, action.run st = .error error → ∀ span ∈ error.span?, allowed span

lemma Made.spans {n : Nat} {act : Lower α} {st : LoweringState} (h : Made may n act st) : Spans may act st := by
  induction h with
  | mono _ _ ih => exact ih
  | pure a | update _ _ => exact fun _ h => nomatch h
  | throw _ hspan =>
    rintro _ ⟨⟩
    exact hspan
  | bind _ _ hx hf =>
    intro error h
    rcases StateT.run_bind_error h with h | ⟨a, mid, hrun, h⟩
    · exact hx error h
    · exact hf a mid hrun error h
  | read _ _ hf => exact hf
  | @build _ act _ st _ =>
    intro error h
    rw [build_run] at h
    generalize act.run.run st.builder = res at h
    obtain ⟨_ | _, _⟩ := res <;> cases h
    exact fun _ hm => nomatch hm

end Lower

open Lower (Spans)

/-- Where an error of lowering stands, if it names a part of the text. -/
lemma Program.spanned_lower {prog : Program} (h : prog.root.Spanned may) {lim? : Option Nat}
    {error : LoweringError} (herror : prog.lower lim? = .error error) : ∀ span ∈ error.span?, may span := by
  have hlow := lowering_of_error herror
  have hspanned {fn body : Node} {params : List SymbolId} (hentry : prog.entryFunction? =
    some (fn, params, body)) : fn.Spanned may ∧ body.Spanned may := by
    obtain ⟨node, hn, hfound⟩ := List.exists_of_findSome?_eq_some hentry
    have hnode : node.Spanned may := h.child hn
    cases hform : node.form with
    | function sym ids inner =>
      rw [hform] at hfound
      dsimp only at hfound
      split at hfound
      · cases hfound
        exact ⟨hnode, hnode.child (by rw [hform]; exact List.mem_singleton_self _)⟩
      · cases hfound
    | _ =>
      rw [hform] at hfound
      cases hfound
  rcases prog.lowering_cases with ⟨-, hrun⟩ | ⟨fn, first, rest, body, hmain, hrun⟩ |
    ⟨fn, body, hmain, hrun⟩ <;> rw [hrun] at hlow
  · cases hlow
    exact fun _ hm => nomatch hm
  · cases hlow
    rintro _ ⟨⟩
    exact (hspanned hmain).1.span
  · cases hstart : LoweringState.start lim? with
    | error inner =>
      rw [hstart] at hlow
      cases hlow
      exact fun _ hm => nomatch hm
    | ok start =>
      rw [hstart] at hlow
      cases hbody : (Lower.entryBody prog.symbols body).run start with
      | error inner =>
        rw [lowerBody, hbody] at hlow
        cases hlow
        exact (Lower.entryBody_moves prog.symbols (hspanned hmain).2
          (LoweringState.waits_of_start hstart)).1.spans _ hbody
      | ok res =>
        rw [lowerBody, hbody] at hlow
        cases hlow

end Shading
