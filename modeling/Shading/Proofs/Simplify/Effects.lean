import Shading.Proofs.Simplify.DeadStore

/-!
# Effects of nodes

What is found by looking at a tree bounds what its runs do
(`Program.bounded_effects`): the symbols that are assigned below a node, the
expressions that are pure and the locals that are not read.
-/

namespace Shading

open Node List

/-- What a node does is within what is found of it.  A run can end in any way;
it runs alike from stores that agree but for a local that is not read. -/
structure Node.Bounded (table : SymbolTable) (node : Node) : Prop where
  evaluated : ∀ interp (store : Store), store.Keeps table (node.assigned .read) (node.value interp table store).2
  run : ∀ interp rounds (store : Store) completion last, node.run interp table rounds store =
    some (completion, last) → store.Keeps table (node.assigned .read) last
  pure : node.isPure table = true → ∀ interp store, (node.value interp table store).2 = store
  unread : ∀ interp symbol, node.reads symbol = 0 →
    EvaluatesAlike (Store.Agree (· == symbol)) (node.value interp table) (node.value interp table) ∧
      RunsAlike (Store.Agree (· == symbol)) (node.run interp table) (node.run interp table)

lemma Node.Typed.bounded {tbl : SymbolTable} {node : Node} (ht : node.Typed tbl) : node.Bounded tbl := by
  refine ⟨fun _ store => keeps_value node store, fun _ _ _ _ _ => keeps_run, fun hp _ => store_of_isPure ht hp,
    fun sem sym hreads => ?_⟩
  have hrespects : node.Respects tbl (Store.Agree (· == sym)) := respects_agree fun use hu hread => by
    have hnone := countP_eq_zero.mp hreads use hu
    simpa [hread] using hnone
  exact ⟨hrespects.alike.value, hrespects.alike.run⟩

lemma Node.Typed.everywhere_bounded {tbl : SymbolTable} {node : Node} (ht : node.Typed tbl) :
    node.Everywhere (Bounded tbl) := by
  induction node with
  | mk lbl form ih => exact everywhere_mk.mpr ⟨ht.bounded, fun kid hk => ih kid hk (ht.child hk)⟩

/-- Every node of a function, simplified or not, is bounded by what is found of
it. -/
theorem Program.bounded_effects {source : Source} {layout : Layout} {program other : Program} (hl : layout.Built)
    (hparse : Program.parse source layout = .ok program)
    (hother : other = program ∨ ∃ options simplified, program.simplify options = .ok simplified ∧
      other = simplified.program) :
    ∀ function ∈ other.functions, ∃ symbol parameters body, function.form = .function symbol parameters body ∧
      ∀ node ∈ body.preorder, node.Bounded other.symbols := by
  intro function hm
  rcases hother with rfl | ⟨options, simplified, hsimplify, rfl⟩
  · obtain ⟨symbol, parameters, body, hform, hread⟩ := (Program.wellRead_of_parse hl hparse).functions function hm
    exact ⟨symbol, parameters, body, hform, hread.typed.everywhere_bounded⟩
  · obtain ⟨hsymbols, hfunctions⟩ := Program.functionLeft_of_simplify hl hparse hsimplify
    obtain ⟨symbol, parameters, body, hform, hleft⟩ := hfunctions function hm
    rw [hsymbols]
    exact ⟨symbol, parameters, body, hform, hleft.typed.everywhere_bounded⟩

theorem Program.bounded_effects_chainedStores : ∃ program simplified,
    Program.parse .chainedStores .twoWords = .ok program ∧ program.simplify .standard = .ok simplified ∧
      program.functions.map (fun function => (function.assigned .read).map fun symbol =>
        function.reads symbol) = [[0, 0, 1, 3]] ∧
      ∀ other, other = program ∨ other = simplified.program → ∀ function ∈ other.functions,
      ∃ symbol parameters body, function.form = .function symbol parameters body ∧
        ∀ node ∈ body.preorder, node.Bounded other.symbols := by
  obtain ⟨program, simplified, hparse, hsimplify, hreads⟩ := Source.exists_of_simplifiesTo (by decide +kernel :
    Source.chainedStores.simplifiesTo .twoWords .standard (fun program _ => program.functions.map (fun function =>
      (function.assigned .read).map fun symbol => function.reads symbol) = [[0, 0, 1, 3]]) = true)
  refine ⟨program, simplified, hparse, hsimplify, of_decide_eq_true hreads, fun other hother => ?_⟩
  exact Program.bounded_effects Layout.built_twoWords hparse (hother.imp_right fun heq =>
    ⟨.standard, simplified, hsimplify, heq⟩)

end Shading
