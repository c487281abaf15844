import Shading.Ir.Text
import Shading.Proofs.Ir.BlockList

/-!
# Compaction

Compacting the blocks of a builder drops empty slots and the marks that they
left, and nothing else (`Build.fixupBlocks_run`).  It does not show: the
instructions of a block are those put in it that were not taken out, in the order
in which they were put in, however often it was compacted in between
(`Builder.Logged`).
-/

namespace Shading

open List

variable {ir builder : Builder} {id : ObjectId} {block : Block} {order : List ObjectId}

lemma Block.length_instructions (h : none ∉ block.slots) : block.instructions.length = block.slots.length :=
  filterMap_length_eq_length.mpr fun _ hm => Option.isSome_iff_ne_none.mpr fun heq => h (heq ▸ hm)

namespace Builder

lemma compacted_compacted : ir.compacted.compacted = ir.compacted := by
  refine compacted_of_fixed fun id block hb => ?_
  rw [block?_compacted] at hb
  obtain ⟨old, -, rfl⟩ := Option.map_eq_some_iff.mp hb
  exact old.fixup_fixup

lemma Neat.fixupBlocks_run (h : ir.Neat order) : Build.fixupBlocks.run.run ir = (.ok (), ir.compacted) :=
  (Build.fixupBlocks_run (P := fun _ => True) (fun _ _ _ _ _ => trivial) trivial h.wellFormed h.ordered).1

lemma Neat.compacted (h : ir.Neat order) : ir.compacted.Neat order :=
  ((Build.fixupBlocks_stilling ir).ok h.fixupBlocks_run).neat h

/-! ## The text -/

lemma instructionLine_compacted (paint : Paint → String → String) (instr : Instruction) :
    ir.compacted.instructionLine paint instr = ir.instructionLine paint instr := by
  have hid (block : Block) : block.fixup.id = block.id := by unfold Block.fixup; split <;> rfl
  have hbase (id : ObjectId) : ir.compacted.baseText id = ir.baseText id := by
    rw [baseText, kind?_compacted, baseText]
    cases ir.kind? id with
    | none => rfl
    | some kind => cases kind <;> rfl
  have htext (id : ObjectId) : ir.compacted.operandText id = ir.operandText id := by
    rw [operandText, kind?_compacted, operandText]
    cases ir.kind? id with
    | none => rfl
    | some kind =>
      cases kind with
      | memory operand => simp only [Option.map_some, ObjectKind.fixup, hbase]
      | block block => simp only [Option.map_some, ObjectKind.fixup, hid]
      | _ => rfl
  have hpaint (id : ObjectId) : ir.compacted.operandPaint id = ir.operandPaint id := by
    rw [operandPaint, kind?_compacted, operandPaint]
    cases ir.kind? id with
    | none => rfl
    | some kind => cases kind <;> rfl
  have hopds : ir.compacted.operandsText paint instr.operands = ir.operandsText paint instr.operands := by
    simp only [operandsText, htext, hpaint]
  rw [instructionLine, hopds]
  rfl

lemma text_compacted (h : ir.Neat order) (paint : Paint → String → String) :
    ir.compacted.text paint = ir.text paint := by
  have hblocks : ir.compacted.blocks = ir.blocks := h.compacted.blocks_eq.trans h.blocks_eq.symm
  have hlines (block : Block) : ir.compacted.blockLines paint block.fixup = ir.blockLines paint block := by
    rw [blockLines, Block.instructions_fixup, funext (instructionLine_compacted paint)]
    unfold Block.fixup
    split <;> rfl
  have hfound : ir.compacted.block? = fun id => (ir.block? id).map Block.fixup := funext block?_compacted
  rw [text, lines, hblocks, hfound, ← map_filterMap, flatMap_map, funext hlines]
  rfl

/-! ## What is left in a block -/

/-- A block and what was put in it and taken out of it since some time, by
whatever commands, as long as it lives. -/
inductive Logged (slots : Nat) (limit? : Option Nat) (target : ObjectId) :
    Builder → (placed dropped : List InstId) → Prop where
  | start {ir : Builder} {block : Block} (h : Used slots limit? ir) (hb : ir.block? target = some block) :
    Logged slots limit? target ir block.instructions []
  | step {ir : Builder} {placed dropped : List InstId} (command : Command)
      (h : Logged slots limit? target ir placed dropped)
    (live : (command.perform.run.run ir).2.objects.contains target = true) :
    Logged slots limit? target (command.perform.run.run ir).2 (placed ++ filed target (command.placed ir))
      (dropped ++ filed target (command.dropped ir))

variable {slots : Nat} {limit? : Option Nat} {placed dropped : List InstId} {target : ObjectId}

lemma Logged.used (h : Logged slots limit? target ir placed dropped) : Used slots limit? ir := by
  induction h with
  | start h _ => exact h
  | step command _ _ ih => exact ih.step command

lemma Logged.survivors (h : Logged slots limit? target ir placed dropped) :
    ∃ block, ir.block? target = some block ∧
    block.instructions <+ placed ∧ (block.instructions ++ dropped).Perm placed := by
  induction h with
  | start h hb => exact ⟨_, hb, .refl _, .of_eq (append_nil _)⟩
  | @step ir placed dropped command h live ih =>
    obtain ⟨block, hb, hsub, hperm⟩ := ih
    obtain ⟨obj, ho⟩ := contains_iff.mp live
    obtain ⟨refs, hold⟩ := object?_of_block? hb
    obtain ⟨made?, hbecomes⟩ := h.used.becomes command
    have hk := kind?_of_object? ho
    rcases hbecomes.kinds target obj.kind hk with ⟨old, hkind, hkeeps⟩ | ⟨-, hnone, -⟩
    · obtain rfl := Option.some.inj ((kind?_of_block? hb).symm.trans hkind)
      generalize obj.kind = kind at hk hkeeps
      cases hkeeps with
      | operand hop => cases hop
      | @block _ after hkeeps =>
        exact ⟨after, block?_of_kind? hk, hkeeps.sublist.trans (hsub.append_right _),
          perm_in_row hkeeps.perm hperm⟩
    · rw [hnone] at hold
      cases hold

/-- Compaction does not show.  A block with an empty slot is marked; compaction
changes nothing but slots and marks of blocks, leaves no empty slot, and changes
neither the text nor, done again, anything.  A block has the instructions that
were put in it and not taken out, in their order. -/
theorem compaction_of_used (h : Used slots limit? builder) :
    (∀ id block, builder.block? id = some block → none ∈ block.slots → block.requiresFixup = true) ∧
    Build.fixupBlocks.run.run builder = (.ok (), builder.compacted) ∧
    (∀ id block, builder.compacted.block? id = some block →
      none ∉ block.slots ∧ block.requiresFixup = false ∧ block.slots.length = block.instructions.length) ∧
    Build.fixupBlocks.run.run builder.compacted = (.ok (), builder.compacted) ∧
    (∀ paint, builder.compacted.text paint = builder.text paint) ∧
    ∀ target placed dropped, Logged slots limit? target builder placed dropped → ∃ block,
    builder.block? target = some block ∧
      block.instructions <+ placed ∧ (block.instructions ++ dropped).Perm placed := by
  obtain ⟨order, hneat⟩ := h.neat
  have hneat' := hneat.compacted
  have hmarked := h.marked
  refine ⟨fun id block hb hm => ?_, hneat.fixupBlocks_run, fun id block hb => ?_, ?_, text_compacted hneat,
    fun _ _ _ hw => hw.survivors⟩
  · exact (Bool.eq_false_or_eq_true _).resolve_right fun hclean => hmarked id block hb hclean hm
  · rw [block?_compacted] at hb
    obtain ⟨old, hold, rfl⟩ := Option.map_eq_some_iff.mp hb
    have hfull := Block.Marked.fixup (hmarked id old hold) old.requiresFixup_fixup
    exact ⟨hfull, old.requiresFixup_fixup, (Block.length_instructions hfull).symm⟩
  · rw [hneat'.fixupBlocks_run, compacted_compacted]

/-- Of three instructions the second is taken out and, after a compaction, the
third, which stands in the second slot then. -/
theorem compaction_of_used_shifted : ∃ builder placed dropped, Logged 0 none ⟨0, 0⟩ builder placed dropped ∧
    placed = [⟨0, 0⟩, ⟨1, 0⟩, ⟨2, 0⟩] ∧ dropped = [⟨1, 0⟩, ⟨2, 0⟩] ∧ ∃ block,
    builder.block? ⟨0, 0⟩ = some block ∧
      block.instructions <+ placed ∧ (block.instructions ++ dropped).Perm placed := by
  have hcreated : Used 0 none _ := .create rfl
  have hstart : Logged 0 none ⟨0, 0⟩ _ _ _ := .start (hcreated.step (.operation .newBlock)) rfl
  have hfirst := hstart.step (.operation (.emit ⟨0, 0⟩ (.scalar .ret) [])) (by decide +kernel)
  have hsecond := hfirst.step (.operation (.emit ⟨0, 0⟩ (.scalar .ret) [])) (by decide +kernel)
  have hthird := hsecond.step (.operation (.emit ⟨0, 0⟩ (.scalar .ret) [])) (by decide +kernel)
  have htaken := hthird.step (.operation (.removeInst ⟨0, 0⟩ 1)) (by decide +kernel)
  have hcompact := htaken.step (.operation .fixupBlocks) (by decide +kernel)
  have hlast := hcompact.step (.operation (.removeInst ⟨0, 0⟩ 1)) (by decide +kernel)
  exact ⟨_, _, _, hlast,
    by decide +kernel, by decide +kernel, (compaction_of_used hlast.used).2.2.2.2.2 _ _ _ hlast⟩

end Builder

end Shading
