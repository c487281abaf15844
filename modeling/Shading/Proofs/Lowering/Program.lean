import Shading.Proofs.Compile
import Shading.Proofs.Lowering.Code
import Shading.Proofs.Lowering.Invariant
import Shading.Proofs.Simplify.Return

/-!
# Code of programs

Lowering a body that was checked gives code in which each block is closed and
none waits (`Builder.Finished`), or an expected error.
-/

namespace Shading

open List

variable {acc : Accesses} {ir : Builder} {g : Graph} {base : ObjectId} {prog : Program}
  {tbl : SymbolTable} {loose : Prop}

/-- Code in which all blocks are closed and none waits. -/
structure Builder.Finished (ir : Builder) (accesses : Accesses) (graph : Graph) (base : ObjectId) : Prop where
  draws : ir.Draws graph graph.names base
  formed : graph.WellFormed true
  pending : graph.pending = []
  admits : ∀ instr ∈ graph.instructions, ir.Admits accesses base instr

/-- Blocks are listed in the order in which they were filled. -/
lemma Builder.Draws.order_eq {order : List ObjectId}
    (h : ir.Draws g order base) (hpend : g.pending = []) : order = g.names := by
  have hperm := h.perm
  rw [Graph.ids, hpend, append_nil] at hperm
  exact (h.sublist.eq_of_length hperm.length_eq.symm).symm

/-- What lowering asks of the body of a function. -/
structure Node.LowerableBody (table : SymbolTable) (accesses : Accesses) (unscoped : Prop) (body : Node) :
    Prop where
  lowerable : ∃ result, body.Lowerable table accesses unscoped result []
  isBlock : body.form.isBlock = true
  exits : body.exits = .never
  neat : body.Neat

namespace Lower

open LoweringState

variable {st : LoweringState} {body : Node}

/-- The body is closed by a return if it does not stop. -/
lemma entryBody_ends (hr : Returns tbl acc) (hbody : body.LowerableBody tbl acc loose)
    (h : st.Ready tbl acc false g) (hpend : g.pending = []) (hloops : st.loops = []) :
    Ends (entryBody tbl body) st (fun _ later => ∃ g, later.builder.Finished acc g later.base)
      (LoweringError.Expected tbl loose) := by
  obtain ⟨res, hlowerable⟩ := hbody.lowerable
  have harm : body.form.isArm = false := by
    have hblk := hbody.isBlock
    cases hform : body.form <;> rw [hform] at hblk <;> first | rfl | cases hblk
  have hcovers : st.Covers loose [] := .inr (forall_mem_nil _)
  have haims : g.Aims body.exits st.loops := by
    refine ⟨fun hne => absurd hbody.exits hne, fun targets hm => ?_⟩
    rw [hloops] at hm
    cases hm
  have hstmt := Node.statement_completes hr hlowerable hbody.neat harm g st h hcovers haims
  refine hstmt.bind ?_
  rintro - mid ⟨stopped, now, -, hway⟩
  have hnow : now.pending = [] := by
    have hperm := hway.grown.pending
    rw [hpend] at hperm
    exact hperm.eq_nil
  obtain ⟨order, hholds⟩ := hway.ready.holds
  change Ends (if !mid.terminated then emit (.scalar .ret) [] else pure ()) mid _ _
  rw [hway.ready.terminated]
  cases stopped with
  | true =>
    obtain rfl := hholds.draws.order_eq hnow
    exact .pure ⟨now, hholds.draws, hway.ready.formed, hnow, hholds.admits⟩
  | false =>
    refine (append_holds hholds hway.ready.terminated (by decide) (forall_mem_nil _)
      (Builder.admits_of_isControl rfl)).imp ?_
    rintro - later ⟨hlater, -, -⟩
    obtain rfl := hlater.draws.order_eq hnow
    exact ⟨_, hlater.draws, hway.ready.formed.close .ret (nil_subset _), hnow, hlater.admits⟩

end Lower

namespace Program

variable {body : Node} {lim? : Option Nat}

lemma lowerBody_cases (hr : Lower.Returns tbl acc) (hbody : body.LowerableBody tbl acc loose) (lim? : Option Nat) :
    (∀ st, lowerBody tbl body (LoweringState.start lim?) = .ok st → ∃ g base, st.builder.Finished acc g base) ∧
      ∀ error, lowerBody tbl body (LoweringState.start lim?) = .error error → error.Expected tbl loose := by
  rcases LoweringState.start_cases lim? with hstart | ⟨started, entry, base, hstart, hdraws⟩ <;> rw [hstart]
  · refine ⟨nofun, fun _ heq => ?_⟩
    cases heq
    exact .memory
  have hready :
      LoweringState.Ready tbl acc false ⟨[], entry, [], []⟩ ⟨started, base, entry, false, [], []⟩ := by
    refine ⟨⟨_, hdraws, rfl, forall_mem_nil _, forall_mem_nil _⟩, rfl, ?_⟩
    exact ⟨forall_mem_nil _, Code.straight_nil, fun _ _ _ heq =>
      by simp at heq, fun hne => absurd rfl hne, nil_subset _⟩
  obtain ⟨hgood, hbad⟩ := (Lower.entryBody_ends hr hbody hready rfl rfl).last
  refine ⟨fun st heq => ?_, hbad⟩
  obtain ⟨-, g, hfinished⟩ := hgood st heq
  exact ⟨g, _, hfinished⟩

lemma form_of_entryFunction? {fn : Node} {params : List SymbolId}
    (h : prog.entryFunction? = some (fn, params, body)) :
    fn ∈ prog.functions ∧ ∃ sym, fn.form = .function sym params body := by
  obtain ⟨other, hm, hfound⟩ := exists_of_findSome?_eq_some h
  split at hfound
  · rename_i sym params' body' hform
    split at hfound
    · cases hfound
      exact ⟨hm, sym, hform⟩
    · cases hfound
  · cases hfound

end Program

/-- Bodies that the simplifier leaves can be lowered. -/
lemma FunctionLeft.lowerableBody {sym : SymbolId} {body : Node}
    (h : FunctionLeft tbl sym [] body) (hpermitted : body.Permitted tbl acc .read) :
    body.LowerableBody tbl acc False where
  lowerable := ⟨_, h.typed, h.checked, hpermitted, .inr h.inScope⟩
  isBlock := h.isBlock
  exits := h.exits
  neat := h.neat

/-- Pruning leaves finished code thinner. -/
lemma Builder.Finished.final {later : Builder}
    (h : ir.Finished acc g base) (hfinal : later = ir ∨ ∃ removed, ir.prune = .ok (removed, later)) :
    ir.Thins later ∧ later.Prunable [] [] g.names ∧ later.Compact := by
  rcases hfinal with rfl | ⟨removed, hprune⟩
  · exact ⟨(Reduces.refl _ []).thins, h.draws.prunable, h.draws.compact⟩
  · obtain ⟨removed', later', hprune', hprunable, hred, hcompact, -⟩ := h.draws.prunable.prune
    obtain ⟨rfl, rfl⟩ := Prod.mk.inj (Except.ok.inj (hprune'.symm.trans hprune))
    exact ⟨hred.thins, hprunable, hcompact⟩

/-- Code of a block after pruning. -/
lemma Builder.Finished.listing? {later : Builder}
    (h : ir.Finished acc g base) (hthins : ir.Thins later) (hlater : later.Prunable [] [] g.names)
    (hcompact : later.Compact) {blk : ObjectId × List Instruction} (hm : blk ∈ g.blocks) :
    ∃ rest, later.listing? blk.1 = some rest ∧ Code.Thins blk.2 rest := by
  have hcode : ir.code? blk.1 = some blk.2 := by
    rw [← h.draws.compact.listing? h.draws.sound]
    exact h.draws.blocks blk hm
  obtain ⟨rest, hrest, hthin⟩ := hthins.code blk.1 blk.2 hcode
  exact ⟨rest, (hcompact.listing? hlater.sound blk.1).trans hrest, hthin⟩

/-- Code of a compile that succeeds, if the accesses that the entry function
makes are allowed. -/
lemma CompilesTo.finished {src : Source} {layout : Layout} {options : Options} {done : Simplified}
    {lowered final : Builder} (h : CompilesTo src layout options prog done lowered final)
    (hl : layout.Built) (hr : Lower.Returns prog.symbols acc)
    (hpermitted : ∀ fn body, done.program.entryFunction? = some (fn, [], body) →
      body.Permitted prog.symbols acc .read) :
    ∃ g base, lowered.Finished acc g base ∧ lowered.Thins final ∧ final.Prunable [] [] g.names ∧
    final.Compact := by
  obtain ⟨hsyms, hleft⟩ := Program.functionLeft_of_simplify hl h.parse h.simplify
  obtain ⟨st, hlow, rfl⟩ := Program.lowering_of_lower h.lower
  rcases done.program.lowering_cases with ⟨-, hrun⟩ | ⟨_, _, _, _, -, hrun⟩ | ⟨fn, body, hmain, hrun⟩ <;>
    rw [hrun] at hlow
  · cases hlow
  · cases hlow
  obtain ⟨hm, sym, hform⟩ := Program.form_of_entryFunction? hmain
  obtain ⟨sym', params, body', hform', hbody⟩ := hleft fn hm
  cases hform.symm.trans hform'
  rw [hsyms] at hlow
  obtain ⟨g, base, hfinished⟩ :=
    (Program.lowerBody_cases hr (hbody.lowerableBody (hpermitted fn body hmain)) _).1 st hlow
  exact ⟨g, base, hfinished, hfinished.final h.final⟩

end Shading
