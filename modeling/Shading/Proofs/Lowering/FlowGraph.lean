import Shading.Proofs.Lowering.Program

/-!
# Control flow graphs

The code that a compile gives is a control flow graph (`Builder.FlowGraph`):
blocks end with a jump or return and have none before their end, jumps go to
listed blocks, and each block but the entry is entered from an earlier one.
Pruning takes out pure instructions only, so it leaves all of this.
-/

namespace Shading

open List

/-! ## Code without some pure instructions -/

namespace Code

variable {code rest : List Instruction}

/-- Jumps are not pure, so thinner code has all of them. -/
lemma Thins.targets_eq (h : Thins code rest) : targets rest = targets code := by
  induction h with
  | nil => rfl
  | keep instr _ ih => exact congrArg (instr.targets ++ ·) ih
  | drop hpure _ ih =>
    rw [ih, targets, targets, flatMap_cons, Instruction.targets_of_pure hpure]
    rfl

/-- The end of a block has no pure instruction. -/
lemma Exit.eq_of_thins (hexit : Exit code) (h : Thins code rest) : rest = code := by
  cases hexit with
  | ret | jump =>
    cases h with
    | keep _ h =>
      cases h
      rfl
    | drop hpure _ => cases hpure
  | choice =>
    cases h with
    | keep _ h =>
      cases h with
      | keep _ h =>
        cases h
        rfl
      | drop hpure _ => cases hpure
    | drop hpure _ => cases hpure

lemma Thins.closed (h : Thins code rest) (hclosed : Closed code) : Closed rest := by
  obtain ⟨body, last, rfl, hstraight, hexit⟩ := hclosed
  induction body generalizing rest with
  | nil =>
    rw [hexit.eq_of_thins h]
    exact ⟨[], last, rfl, hstraight, hexit⟩
  | cons instr body ih =>
    obtain ⟨hfirst, hbody⟩ := forall_mem_cons.mp hstraight
    cases h with
    | keep _ h =>
      obtain ⟨body', last', rfl, hstraight', hexit'⟩ := ih h hbody
      exact ⟨instr :: body', last', rfl, forall_mem_cons.mpr ⟨hfirst, hstraight'⟩, hexit'⟩
    | drop _ h => exact ih h hbody

end Code

/-! ## Graphs -/

namespace Builder

variable {ir later : Builder} {acc : Accesses} {g : Graph} {base : ObjectId}

/-- The code of a block has a jump to another. -/
def JumpsTo (ir : Builder) (source target : ObjectId) : Prop :=
  ∃ code, ir.listing? source = some code ∧ target ∈ Code.targets code

/-- The listed blocks are a control flow graph. -/
structure FlowGraph (ir : Builder) : Prop where
  entry : ∃ entry, ir.entryBlock? = some entry ∧ ir.blocks.head? = some entry
  /-- No slot is empty, and only the end of a block jumps or returns. -/
  closed : ∀ id ∈ ir.blocks, ∃ code, ir.listing? id = some code ∧ Code.Closed code
  jumps : ∀ id ∈ ir.blocks, ∀ target, ir.JumpsTo id target → target ∈ ir.blocks
  /-- Operands are live, and so are the registers in an address. -/
  operands : ∀ id ∈ ir.blocks, ∀ code, ir.listing? id = some code → ∀ instr ∈ code,
    ∀ operand ∈ instr.operands, ∃ kind, ir.kind? operand = some kind ∧
      ∀ name ∈ kind.names, ∃ register, ir.kind? name = some (.register register)
  entered : ∀ before id after, ir.blocks = before ++ id :: after → before ≠ [] → ∃ source ∈ before,
    ir.JumpsTo source id

/-- All blocks can be reached. -/
lemma FlowGraph.reachable (h : ir.FlowGraph) {entry : ObjectId} (hentry : ir.entryBlock? = some entry)
    {id : ObjectId} (hm : id ∈ ir.blocks) : Relation.ReflTransGen ir.JumpsTo entry id := by
  obtain ⟨first, hfirst, hhead⟩ := h.entry
  obtain rfl : entry = first := Option.some.inj (hentry.symm.trans hfirst)
  -- By the place of the block in the list: it is entered from one that stands before it.
  have hplace (place : Nat) : ∀ pre id after, ir.blocks = pre ++ id :: after → pre.length = place →
      Relation.ReflTransGen ir.JumpsTo entry id := by
    induction place using Nat.strongRecOn with
    | _ place ih =>
      intro pre id after heq hlen
      cases pre with
      | nil =>
        rw [heq] at hhead
        obtain rfl : id = entry := Option.some.inj hhead
        exact .refl
      | cons other pre =>
        obtain ⟨src, hsource, hjump⟩ := h.entered (other :: pre) id after heq (cons_ne_nil _ _)
        obtain ⟨left, right, hsplit⟩ := append_of_mem hsource
        refine .tail (ih left.length ?_ left src (right ++ id :: after) ?_ rfl) hjump
        · rw [← hlen, hsplit, length_append, length_cons]
          omega
        · rw [heq, hsplit, append_assoc, cons_append]
  obtain ⟨pre, after, heq⟩ := append_of_mem hm
  exact hplace pre.length pre id after heq rfl

/-- Finished code is a control flow graph, also without some pure
instructions. -/
lemma Finished.flowGraph (h : ir.Finished acc g base) (hthins : ir.Thins later)
    (hlater : later.Prunable [] [] g.names) (hcompact : later.Compact) : later.FlowGraph := by
  have hblocks : later.blocks = g.names := hlater.ordered.blocks_eq hlater.sound.objects
  have hlisting (blk : ObjectId × List Instruction) (hm : blk ∈ g.blocks) := h.listing? hthins hlater hcompact hm
  refine ⟨?_, fun id hm => ?_, fun id hm tgt hjump => ?_, fun id hm code hcode instr hi opd hopd => ?_,
    fun pre id after heq hne => ?_⟩
  · have hentry := hthins.entry.trans h.draws.entry
    rw [hblocks, Graph.names, head?_map]
    cases hhead : g.blocks.head? with
    | none => simp [Graph.blocks] at hhead
    | some first =>
      rw [hhead] at hentry
      exact ⟨first.1, hentry, rfl⟩
  · rw [hblocks] at hm
    obtain ⟨blk, hblk, rfl⟩ := mem_map.mp hm
    obtain ⟨rest, hrest, hthin⟩ := hlisting blk hblk
    exact ⟨rest, hrest, hthin.closed (h.formed.closed blk hblk)⟩
  · rw [hblocks] at hm ⊢
    obtain ⟨blk, hblk, rfl⟩ := mem_map.mp hm
    obtain ⟨rest, hrest, hthin⟩ := hlisting blk hblk
    obtain ⟨code, hcode, htgt⟩ := hjump
    obtain rfl : rest = code := Option.some.inj (hrest.symm.trans hcode)
    rw [hthin.targets_eq] at htgt
    have hknown := h.formed.known (mem_flatMap.mpr ⟨blk, hblk, htgt⟩)
    rwa [Graph.ids, h.pending, append_nil] at hknown
  · obtain ⟨inst, hinst⟩ := instruction?_of_listing? hcode hi
    obtain ⟨obj, ho⟩ := hlater.sound.named hinst hopd
    exact ⟨obj.kind, kind?_of_object? ho, hlater.sound.registers opd _ (kind?_of_object? ho) not_mem_nil⟩
  · rw [hblocks] at heq
    obtain ⟨first, others, hsplit, rfl, hothers⟩ := map_eq_append_iff.mp heq
    obtain ⟨blk, rest, rfl, rfl, -⟩ := map_eq_cons_iff.mp hothers
    have hreached := h.formed.reached_blocks hsplit (fun hnil => hne (by rw [hnil]; rfl))
    obtain ⟨src, hsource, htgt⟩ := mem_flatMap.mp hreached
    obtain ⟨code, hcode, hthin⟩ := hlisting src (hsplit ▸ mem_append_left _ hsource)
    exact ⟨src.1, mem_map_of_mem hsource, code, hcode, hthin.targets_eq ▸ htgt⟩

end Builder

/-- Each compile that succeeds gives a control flow graph, all of whose blocks
can be reached from the entry. -/
theorem flowGraph_of_compile {source : Source} {layout : Layout} {options : Options} {compilation : Compilation}
    (hl : layout.Built) (h : (compile source layout options).result = .ok compilation) :
    compilation.builder.FlowGraph ∧ ∀ entry, compilation.builder.entryBlock? = some entry →
      ∀ id ∈ compilation.builder.blocks, Relation.ReflTransGen compilation.builder.JumpsTo entry id := by
  obtain ⟨program, simplified, lowered, hstages⟩ := compilesTo_of_compile h
  have hreturns : Lower.Returns program.symbols .all := fun _ _ _ => trivial
  obtain ⟨graph, base, hfinished, hthins, hprunable, hcompact⟩ := hstages.finished hl hreturns
    fun _ body _ => body.permitted_all
  have hgraph := hfinished.flowGraph hthins hprunable hcompact
  exact ⟨hgraph, fun entry hentry id hm => hgraph.reachable hentry hm⟩

/-- Loops that are left in all ways, and a local that is not used. -/
def Source.manyBlocks : Source := ⟨.memory, ("int main() \x7b int n = g * 3; " ++
  "for (int i = 0; i < g; ++i) \x7b if (i == 3) continue; else if (i == 5) break; " ++
  "do \x7b if (g > 9) return i; g += 2; \x7d while (g < i); \x7d return 1; \x7d").toList⟩

theorem flowGraph_of_compile_manyBlocks : ∃ compilation, (compile .manyBlocks .twoWords .standard).result =
    .ok compilation ∧ compilation.builder.blocks.length = 16 ∧ compilation.builder.FlowGraph := by
  have hrun : ((compile .manyBlocks .twoWords .standard).result.toOption.map fun compilation =>
      compilation.builder.blocks.length) = some 16 := by decide +kernel
  cases h : (compile .manyBlocks .twoWords .standard).result with
  | error error =>
    rw [h] at hrun
    cases hrun
  | ok compilation =>
    rw [h] at hrun
    exact ⟨compilation, rfl, Option.some.inj hrun, (flowGraph_of_compile Layout.built_twoWords h).1⟩

end Shading
