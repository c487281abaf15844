import Shading.Proofs.Compile
import Shading.Proofs.Lowering.Spans
import Shading.Proofs.Simplify.Pass
import Shading.Proofs.Token.Partition

/-!
# What a compile reports

A compile that fails reports its error and nothing else, and a diagnostic with a
span can be shown in the text (`reports_of_compile`).
-/

namespace Shading

variable {src : Source} {layout : Layout} {options : Options}

lemma within_of_compile {error : CompileError} (h : (compile src layout options).result = .error error) :
    ∀ span ∈ error.diagnostic.span?, span.Within src.contents := by
  have hregion := Span.region_within src.contents
  have hparse := Program.spanned_parse hregion layout (fun _ hm =>
    ((Cursor.ofText _).cut_lexemes.spans [] rfl hm).1) ⟨.size src.contents, .size src.contents, Nat.le_refl _⟩
  rw [compile_eq] at h
  cases hprogram : Program.parse src layout with
  | error inner =>
    rw [hprogram] at h hparse
    cases h
    rintro _ ⟨⟩
    exact hparse
  | ok prog =>
    rw [hprogram] at h hparse
    dsimp only at h hparse
    have hsimp := (Program.numbered_of_parse hprogram).spanned_simplify hparse options
    cases hsimplified : prog.simplify options with
    | error inner =>
      rw [hsimplified] at h hsimp
      cases h
      rintro _ ⟨⟩
      exact hsimp
    | ok done =>
      rw [hsimplified] at h hsimp
      dsimp only at h hsimp
      cases hlower : done.program.lower options.limit? with
      | error inner =>
        rw [hlower] at h
        cases h
        exact Program.spanned_lower hsimp hlower
      | ok lowered =>
        -- Errors of the builder have no span.
        rw [hlower] at h
        dsimp only [Outcome.pruned] at h
        split at h
        · split at h
          · cases h
            exact nofun
          · cases h
        · cases h

/-- Nothing is reported but the error. -/
lemma reported_of_compile (src : Source) (layout : Layout) (options : Options) :
    (compile src layout options).reported = match (compile src layout options).result with
      | .ok _ => []
      | .error error => [error.diagnostic] := by
  rw [compile_eq]
  cases Program.parse src layout with
  | error error => rfl
  | ok prog =>
    dsimp only
    cases prog.simplify options with
    | error error => rfl
    | ok done =>
      dsimp only
      cases done.program.lower options.limit? with
      | error error => rfl
      | ok ir =>
        dsimp only [Outcome.pruned]
        split
        · split <;> rfl
        · rfl

/-- A compile reports its error, once, and a span that it names can be shown. -/
theorem reports_of_compile (source : Source) (layout : Layout) (options : Options) :
    match (compile source layout options).result with
    | .ok _ => (compile source layout options).reported = []
    | .error error => (compile source layout options).reported = [error.diagnostic] ∧
      ∀ span, error.diagnostic.span? = some span → span.start ≤ span.stop ∧ span.stop ≤ source.size ∧
        Boundary source.contents span.start ∧ Boundary source.contents span.stop ∧ source.Shows span := by
  have hreported := reported_of_compile source layout options
  cases hresult : (compile source layout options).result with
  | ok compilation => rwa [hresult] at hreported
  | error error =>
    rw [hresult] at hreported
    refine ⟨hreported, fun span hspan => ?_⟩
    have hwithin := within_of_compile hresult span hspan
    exact ⟨hwithin.ordered, hwithin.stop.le_size, hwithin.start, hwithin.stop, Source.shows_of_within hwithin⟩

/-- A name that is not declared, behind a comment with a character of two
bytes. -/
def Source.undeclaredName : Source := ⟨.memory, ("// \u00e9\nint main() \x7b return x; \x7d").toList⟩

theorem reports_of_compile_undeclaredName : ∃ error, (compile .undeclaredName ⟨[], 0⟩ .standard).result =
    .error error ∧
    (compile .undeclaredName ⟨[], 0⟩ .standard).reported = [error.diagnostic] ∧ error.diagnostic.span? =
    some ⟨26, 27⟩ ∧ Source.undeclaredName.Shows ⟨26, 27⟩ := by
  have hspans : (compile .undeclaredName ⟨[], 0⟩ .standard).reported.map (·.span?) = [some ⟨26, 27⟩] :=
    by decide +kernel
  have hreports := reports_of_compile .undeclaredName ⟨[], 0⟩ .standard
  cases hresult : (compile .undeclaredName ⟨[], 0⟩ .standard).result with
  | ok compilation =>
    rw [hresult] at hreports
    rw [hreports] at hspans
    cases hspans
  | error error =>
    rw [hresult] at hreports
    rw [hreports.1, List.map_singleton, List.singleton_inj] at hspans
    exact ⟨error, rfl, hreports.1, hspans, (hreports.2 _ hspans).2.2.2.2⟩

end Shading
