import Shading.Proofs.Simplify.Pass
import Shading.Proofs.Simplify.Return

/-!
# Statements that are not reached

No statement is left behind one that control does not get past, and the summary
of a function says whether control gets past its body
(`Program.summaries_of_simplify`).  Dead stores go last, which can make a
condition literal: such a condition does not count.
-/

namespace Shading

open List

variable {env : SimplifyEnv} {body seen : Node} {sym : SymbolId} {params : List SymbolId}

/-- The body of a function as it was visited, from which dead stores were not
removed yet. -/
def SimplifyEnv.Leaves (env : SimplifyEnv) (sym : SymbolId) (body visited : Node) : Prop :=
  ∃ start finish, (TreePass.visit env body ⟨some sym, false, .functionBody⟩).run.run
    (SimplifyState.opened start) = (.ok visited, finish)

/-- What a summary tells about a function, with the literals of its body that
were there before dead stores were removed. -/
def FunctionSummary.Tells (env : SimplifyEnv) (fn rewritten : Node) (summary : FunctionSummary) : Prop :=
  ∃ params source visited body, fn.form = .function summary.symbol params source ∧
    env.Leaves summary.symbol source visited ∧ rewritten.form = .function summary.symbol params body ∧
    body = (if env.options.eliminate then (eliminateDeadStores env.symbols visited).node else visited) ∧
    (body.seenBy visited.literals).Tidy ∧ summary.endsUnreachable = (body.seenBy visited.literals).ends ∧
    (env.options.eliminate = false → body.Tidy ∧ summary.endsUnreachable = body.ends)

/-- In a tree that reaches each node once no assignment has the number of a
literal. -/
lemma Node.storesUnknown_literals (h : seen.ids.Nodup) : seen.StoresUnknown seen.literals := by
  intro inner hi tgt val hform hmem
  obtain ⟨literal, hl, hid⟩ := mem_map.mp hmem
  obtain ⟨hl, himm⟩ := mem_filter.mp hl
  obtain rfl := inj_on_of_nodup_map h hl hi hid
  rw [Node.immediate?, hform] at himm
  cases himm

/-- Who knows the literals of a tree sees it as it is. -/
lemma Node.seenBy_literals (node : Node) : node.seenBy node.literals = node :=
  seenBy_eq_self fun _ hi himm => mem_map_of_mem (mem_filter.mpr ⟨hi, himm⟩)

/-- What the summary of a function that was visited tells. -/
lemma FunctionRead.tells {start finish : SimplifyState Nat} {lbl : Label} {changes : Nat}
    (hs : env.symbols.WellFormed) (h : FunctionRead env.symbols sym params body)
    (hlinked : body.Linked) (hnodup : body.ids.Nodup) (hbound : ∀ id ∈ body.ids, id.index < start.nodes)
    (hrun : (TreePass.visit env body ⟨some sym, false, .functionBody⟩).run.run start.opened = (.ok seen, finish)) :
    FunctionSummary.Tells env (.mk lbl (.function sym params body)) (.mk lbl (.function sym params
        (if env.options.eliminate then (eliminateDeadStores env.symbols seen).node else seen)))
      ⟨sym, finish.unreachable, changes⟩ ∧
      finish.summaries = start.summaries ∧ start.nodes ≤ finish.nodes := by
  obtain ⟨hrebuilt, hvisit, hsummaries⟩ := TreePass.visit_body rfl h.isBlock hlinked h.typed hrun
  have hkept := Visits.preserved hvisit (h.returnsType hs) .nothing h.typed
  have hflows := hkept.reached rfl
  have hends : finish.unreachable = seen.ends := hflows.ends
  have hgrows := hrebuilt.grows
  simp only [Node.idsAll_cons, Node.idsAll_nil, append_nil] at hgrows
  have hunknown := Node.storesUnknown_literals (hgrows.nodup hnodup hbound)
  refine ⟨⟨_, _, _, _, rfl, ⟨_, _, hrun⟩, rfl, rfl, ?_⟩, hsummaries, hgrows.le⟩
  cases env.options.eliminate with
  | false =>
    rw [if_neg Bool.false_ne_true, Node.seenBy_literals]
    exact ⟨hflows.tidy, hends, fun _ => ⟨hflows.tidy, hends⟩⟩
  | true =>
    have hseen := ((sweptTo_eliminateDeadStores env.symbols seen).seen hkept.typed hunknown).2
    rw [Node.seenBy_literals] at hseen
    exact ⟨hseen.tidy hflows.tidy, hends.trans hseen.ends_eq.symm, nofun⟩

lemma FunctionsPass.tells {s last : SimplifyState Nat} {functions results : List Node} {low : Nat}
    (hs : env.symbols.WellFormed) (h : FunctionsPass env s functions results last) (hlow : low ≤ s.nodes)
    (hread : ∀ fn ∈ functions, ∃ sym params body, fn.form = .function sym params body ∧
      FunctionRead env.symbols sym params body)
    (hlinked : ∀ fn ∈ functions, fn.Linked) (hnodup : (Node.idsAll functions).Nodup)
    (hbound : ∀ id ∈ Node.idsAll functions, id.index < low) :
    ∃ summaries, last.summaries = s.summaries ++ summaries ∧
      List.Forall₂ (fun pair => FunctionSummary.Tells env pair.1 pair.2) (functions.zip results) summaries := by
  induction h with
  | nil => exact ⟨[], (append_nil _).symm, .nil⟩
  | @cons s finish t last lbl sym params body seen functions results run ends nodes summaries rest ih =>
    obtain ⟨sym, params, body, hform, hfn⟩ := hread _ (.head _)
    cases hform
    obtain ⟨changes, hsummaries⟩ := summaries
    rw [Node.idsAll_cons, nodup_append] at hnodup
    rw [Node.idsAll_cons, forall_mem_append] at hbound
    have hids : (Node.mk lbl (.function sym params body)).ids = lbl.id :: body.ids := by
      rw [Node.ids_mk]
      exact congrArg (lbl.id :: ·) (append_nil _)
    rw [hids] at hnodup hbound
    obtain ⟨htells, hsame, hle⟩ := hfn.tells hs ((hlinked _ (.head _)).child (.head _)) hnodup.1.of_cons
      (fun id hm => Nat.lt_of_lt_of_le (hbound.1 id (.tail _ hm)) hlow) run
    obtain ⟨others, hothers, hrest⟩ := ih (Nat.le_trans hlow (nodes ▸ hle)) (forall_mem_cons.mp hread).2
      (forall_mem_cons.mp hlinked).2 hnodup.2.1 hbound.2
    refine ⟨⟨sym, finish.unreachable, changes⟩ :: others, ?_, .cons htells hrest⟩
    rw [hothers, hsummaries, hsame, append_assoc]
    rfl

/-- Of the functions of a simplified program nothing is left that is not
reached, and the summaries tell which of them control does not get past. -/
theorem Program.summaries_of_simplify {source : Source} {layout : Layout} {program : Program} {options : Options}
    {simplified : Simplified} (hl : layout.Built) (hparse : Program.parse source layout = .ok program)
    (hsimplify : program.simplify options = .ok simplified) :
    simplified.program.functions.length = program.functions.length ∧
      List.Forall₂ (fun pair => FunctionSummary.Tells ⟨options, program.symbols⟩ pair.1 pair.2)
        (program.functions.zip simplified.program.functions) simplified.summaries := by
  have hread := Program.wellRead_of_parse hl hparse
  have hnumbered := hread.numbered
  have hfunctions : ∀ function ∈ program.functions, ∃ symbol params body,
      function.form = .function symbol params body :=
    fun function hm => (hread.functions function hm).imp fun _ h => h.imp fun _ h => h.imp fun _ h => h.1
  obtain ⟨-, -, last, hpass, hsummaries⟩ := Program.simplify_passes hfunctions hread.isProgram hsimplify
  obtain ⟨⟨label, form⟩, symbols, nodeCount⟩ := program
  have hnodup := hnumbered.nodup
  have hbound := hnumbered.bound
  rw [Node.ids_mk] at hnodup hbound
  obtain ⟨summaries, hlast, htells⟩ := hpass.tells hread.symbols (Nat.le_refl nodeCount) hread.functions
    (fun function hm => hnumbered.linked.child hm) hnodup.of_cons (forall_mem_cons.mp hbound).2
  refine ⟨(hpass.simplifies hread.typedFunction).length_eq.symm, ?_⟩
  rw [hsummaries, hlast]
  exact htells

/-- The condition of the loop becomes literal when its store goes. -/
def Source.storedTruth :
    Source := ⟨.memory, "void main() \x7b bool x; while (x = true) \x7b \x7d g = 1; \x7d".toList⟩

theorem Program.summaries_of_simplify_storedTruth : ∃ program simplified,
    Program.parse .storedTruth .twoWords = .ok program ∧ program.simplify .standard = .ok simplified ∧
      simplified.program.functions.length = 1 ∧
      List.Forall₂ (fun pair => FunctionSummary.Tells ⟨.standard, program.symbols⟩ pair.1 pair.2)
        (program.functions.zip simplified.program.functions) simplified.summaries := by
  obtain ⟨program, simplified, hparse, hsimplify, hlength⟩ :=
    Source.exists_of_simplifiesTo (by decide +kernel :
      Source.storedTruth.simplifiesTo .twoWords .standard
        (fun _ simplified => simplified.program.functions.length = 1) = true)
  exact ⟨program, simplified, hparse, hsimplify, of_decide_eq_true hlength,
    (Program.summaries_of_simplify Layout.built_twoWords hparse hsimplify).2⟩

/-- A statement can be left behind a loop that is never left, and the summary of
a function whose body ends can say that its end is reached. -/
theorem Program.statement_behind_storedTruth : ∃ program simplified,
    Program.parse .storedTruth .twoWords = .ok program ∧ program.simplify .standard = .ok simplified ∧
      simplified.summaries.map (·.endsUnreachable) = [false] ∧
      ∃ function ∈ simplified.program.functions, ∃ body ∈ function.children, body.ends = true ∧
        ∃ statement ∈ body.children.dropLast, statement.ends = true := by
  obtain ⟨program, simplified, hparse, hsimplify, htest⟩ :=
    Source.exists_of_simplifiesTo (by decide +kernel :
      Source.storedTruth.simplifiesTo .twoWords .standard (fun _ simplified =>
        simplified.summaries.map (·.endsUnreachable) = [false] ∧
        ∃ function ∈ simplified.program.functions, ∃ body ∈ function.children, body.ends = true ∧
          ∃ statement ∈ body.children.dropLast, statement.ends = true) = true)
  exact ⟨program, simplified, hparse, hsimplify, of_decide_eq_true htest⟩

end Shading
