import Shading.Proofs.Lowering.Blocks

/-!
# Where registers are written

A pure instruction writes its first operand.  `Graph.Assigned` says which
registers the code of a graph writes and reads.  That of the data slot is not
written, those of locals are written by moves only.  Any other one is a
temporary: it is written once and read only behind that, in the same block.
-/

namespace Shading

open List

variable {instr : Instruction} {code : List Instruction} {held : ObjectId → Prop} {g : Graph} {ir later : Builder}
  {base id : ObjectId} {locals order : List ObjectId}

namespace Instruction

/-- The register that an instruction writes. -/
def written? (instr : Instruction) : Option ObjectId := if instr.opcode.code.isPure
    then instr.operands.head? else none

/-- Operands that an instruction reads: neither what it writes nor where it jumps. -/
def reads (instr : Instruction) : List ObjectId :=
  (if instr.opcode.code.isPure then instr.operands.tail else instr.operands).filter (· ∉ instr.targets)

def isMove (instr : Instruction) : Bool :=
  match instr.opcode.code with
  | .move _ => true
  | _ => false

lemma mem_operands_of_reads (h : id ∈ instr.reads) : id ∈ instr.operands := by
  have h := mem_of_mem_filter h
  split at h
  · exact mem_of_mem_tail h
  · exact h

end Instruction

namespace Builder

/-- An immediate, or an address relative to the data slot. -/
def Fixed (ir : Builder) (base id : ObjectId) : Prop :=
  (∃ operand, ir.shape? id = some (.immediate operand)) ∨ ∃ offset,
    ir.shape? id = some (.memory ⟨base, none, offset⟩)

lemma Fixed.grows (h : ir.Fixed base id) (hg : ir.Grows later) : later.Fixed base id := by
  rcases h with ⟨opd, ho⟩ | ⟨off, ho⟩
  · exact .inl ⟨opd, hg id _ ho rfl⟩
  · exact .inr ⟨off, hg id _ ho rfl⟩

def HasRegister (ir : Builder) (id : ObjectId) : Prop := ∃ register, ir.shape? id = some (.register register)

lemma HasRegister.grows (h : ir.HasRegister id) (hg : ir.Grows later) : later.HasRegister id := by
  obtain ⟨reg, hr⟩ := h
  exact ⟨reg, hg id _ hr rfl⟩

lemma HasRegister.isOperand (h : ir.HasRegister id) : ir.IsOperand id := by
  obtain ⟨reg, hr⟩ := h
  exact ⟨_, hr, rfl⟩

/-- The live instructions are those of the graph. -/
lemma Draws.live_iff (h : ir.Draws g order base) : (∃ inst, ir.instruction? inst = some instr) ↔
    instr ∈ g.instructions := by
  constructor
  · rintro ⟨inst, hi⟩
    obtain ⟨blk, hm, hcode⟩ := h.exists_code hi
    exact mem_flatMap.mpr ⟨blk, hm, hcode⟩
  · intro hm
    obtain ⟨blk, hm, hcode⟩ := mem_flatMap.mp hm
    exact instruction?_of_listing? (h.blocks blk hm) hcode

end Builder

/-- Code that reads only what is held or was written before. -/
inductive Code.Settled (held : ObjectId → Prop) : List Instruction → Prop
  | nil : Settled held []
  | snoc {code : List Instruction} {instr : Instruction} (h : Settled held code)
    (hreads : ∀ id ∈ instr.reads, held id ∨ ∃ writer ∈ code, writer.written? = some id) :
    Settled held (code ++ [instr])

lemma Code.Settled.mono {held' : ObjectId → Prop} (h : Settled held code) (himp : ∀ id, held id → held' id) :
    Settled held' code := by
  induction h with
  | nil => exact .nil
  | snoc _ hreads ih => exact .snoc ih fun id hm => (hreads id hm).imp_left (himp id)

/-- What an instruction in the midst of the code reads. -/
lemma Code.Settled.reads (h : Settled held code) {pre after : List Instruction}
    (heq : code = pre ++ instr :: after)
    (hm : id ∈ instr.reads) : held id ∨ ∃ writer ∈ pre, writer.written? = some id := by
  induction h generalizing after with
  | nil => simp at heq
  | @snoc code last _ hreads ih =>
    rcases eq_nil_or_concat after with rfl | ⟨rest, final, rfl⟩
    · obtain ⟨rfl, hlast⟩ := append_inj' heq rfl
      obtain rfl : last = instr := by simpa using hlast
      exact hreads id hm
    · have hsplit : code ++ [last] = (pre ++ instr :: rest) ++ [final] := by rw [heq]; simp
      exact ih (append_inj' hsplit rfl).1

namespace Graph

/-- Registers are written and read as they should be. -/
structure Assigned (graph : Graph) (ir : Builder) (base : ObjectId) (locals : List ObjectId) : Prop where
  nodup : (base :: locals).Nodup
  settled : ∀ block ∈ graph.blocks, Code.Settled (fun id => ir.Fixed base id ∨ id ∈ locals) block.2
  written : ∀ instr ∈ graph.instructions, ∀ id, instr.written? = some id →
    ir.HasRegister id ∧ id ≠ base ∧ (id ∈ locals → instr.isMove = true)
  once : ∀ id, id ∉ locals → (graph.instructions.filterMap (·.written?)).count id ≤ 1

namespace Assigned

variable (h : g.Assigned ir base locals)
include h

lemma grows (hg : ir.Grows later) : g.Assigned later base locals :=
  ⟨h.nodup, fun blk hm => (h.settled blk hm).mono fun _ hheld => hheld.imp_left (·.grows hg),
    fun instr hm id hw => (h.written instr hm id hw).imp_left (·.grows hg), h.once⟩

lemma enter (id : ObjectId) : (g.enter id).Assigned ir base locals := by
  refine ⟨h.nodup, fun blk hm => ?_, ?_, ?_⟩
  · rcases mem_append.mp hm with hm | hm
    · exact h.settled blk hm
    · rw [mem_singleton.mp hm]
      exact .nil
  · rw [instructions_enter]
    exact h.written
  · rw [instructions_enter]
    exact h.once

/-- A register that is not written yet becomes that of a local. -/
lemma declare (hnew : id ∉ base :: locals) (hw : ∀ instr ∈ g.instructions, instr.written? ≠ some id) :
    g.Assigned ir base (id :: locals) := by
  have hnot : base ≠ id ∧ id ∉ locals := by simpa [eq_comm] using hnew
  refine ⟨?_, fun blk hm => (h.settled blk hm).mono fun _ hheld => hheld.imp_right (.tail _),
    fun instr hi other hwrites => ?_, fun other hm => h.once other fun hin => hm (.tail _ hin)⟩
  · have hnodup := nodup_cons.mp h.nodup
    simp [hnot, hnodup]
  · obtain ⟨hreg, hne, hmove⟩ := h.written instr hi other hwrites
    refine ⟨hreg, hne, fun hm => hmove ((mem_cons.mp hm).resolve_left ?_)⟩
    rintro rfl
    exact hw instr hi hwrites

lemma emit (hreads : ∀ id ∈ instr.reads, (ir.Fixed base id ∨ id ∈ locals) ∨ ∃ writer ∈ g.code,
    writer.written? = some id)
    (hwrites : ∀ id, instr.written? = some id → ir.HasRegister id ∧ (id ∈ locals ∧ instr.isMove = true ∨
      id ∉ base :: locals ∧ ∀ writer ∈ g.instructions, writer.written? ≠ some id)) :
    (g.emit [instr]).Assigned ir base locals := by
  refine ⟨h.nodup, fun blk hm => ?_, fun other hm id hw => ?_, fun id hid => ?_⟩
  · rcases mem_append.mp hm with hm | hm
    · exact h.settled blk (mem_append_left _ hm)
    · rw [mem_singleton.mp hm]
      exact .snoc (h.settled (g.current, g.code) (mem_append_right _ (.head _))) hreads
  · rw [instructions_emit] at hm
    rcases mem_append.mp hm with hm | hm
    · exact h.written other hm id hw
    · obtain rfl := mem_singleton.mp hm
      obtain ⟨hreg, ⟨hm, hmove⟩ | ⟨hnot, -⟩⟩ := hwrites id hw
      · refine ⟨hreg, ?_, fun _ => hmove⟩
        rintro rfl
        exact (nodup_cons.mp h.nodup).1 hm
      · exact ⟨hreg, fun heq => hnot (heq ▸ .head _), fun hm => absurd (.tail _ hm) hnot⟩
  · rw [instructions_emit, filterMap_append, count_append]
    have hle := h.once id hid
    cases hw : instr.written? with
    | none => simpa [hw] using hle
    | some other =>
      by_cases heq : other = id
      · -- A temporary was not written before.
        subst heq
        obtain ⟨-, hfresh⟩ := (hwrites other hw).2.resolve_left fun hlocal => hid hlocal.1
        have hnone : count other (g.instructions.filterMap (·.written?)) = 0 := by
          refine count_eq_zero.mpr fun hm => ?_
          obtain ⟨writer, hwriter, hsame⟩ := mem_filterMap.mp hm
          exact hfresh writer hwriter hsame
        simp [hw, hnone]
      · simpa [hw, heq] using hle

end Assigned

end Graph

end Shading
