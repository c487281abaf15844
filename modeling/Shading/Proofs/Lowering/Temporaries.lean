import Shading.Proofs.Lowering.Invariant

/-!
# Temporaries

Registers that are neither that of the data slot nor those of locals are
temporaries.  In the code of a program each of them is written once and read
behind that in the same block, before and after pruning
(`Program.singleAssignment_of_lowering`).
-/

namespace Shading

open List

variable {ir later : Builder} {base id : ObjectId} {locals order : List ObjectId} {inst : InstId}
  {instr : Instruction}

namespace Builder

/-- The instruction writes the register. -/
def Writes (ir : Builder) (inst : InstId) (id : ObjectId) : Prop :=
  ∃ instr, ir.instruction? inst = some instr ∧ instr.written? = some id

/-- The instruction reads the register, or an address that names it. -/
def Reads (ir : Builder) (inst : InstId) (id : ObjectId) : Prop :=
  ∃ instr, ir.instruction? inst = some instr ∧ ∃ operand ∈ instr.reads,
    operand = id ∨ ∃ memory, ir.kind? operand = some (.memory memory) ∧ id ∈ (ObjectKind.memory memory).names

/-- Instructions write the registers of locals by moves, temporaries once and
that of the data slot not at all, and read temporaries where they are written. -/
structure SingleAssignment (ir : Builder) (base : ObjectId) (locals : List ObjectId) : Prop where
  slots : ir.dataSlots = [some base]
  nodup : (base :: locals).Nodup
  slot : ∀ inst, ¬ir.Writes inst base
  moves : ∀ inst, ∀ id ∈ locals, ir.Writes inst id → ∃ instr, ir.instruction? inst = some instr ∧
    instr.isMove = true
  once : ∀ id, id ∉ locals → ∀ inst other, ir.Writes inst id → ir.Writes other id → inst = other
  /-- The one that writes comes first, in the same block. -/
  behind : ∀ reader id register, ir.Reads reader id → ir.kind? id = some (.register register) →
    id ∉ base :: locals →
    ∃ target block before after writer, ir.block? target = some block ∧ block.instructions = before ++
    reader :: after ∧ writer ∈ before ∧ ir.Writes writer id

namespace Draws

variable {g : Graph} (h : ir.Draws g order base)
include h

/-- A live instruction stands in a block whose code is that of its instructions. -/
lemma exists_instructions (hi : ir.instruction? inst = some instr) : ∃ target blk, ir.block? target = some blk ∧
    inst ∈ blk.instructions ∧ (target, blk.instructions.filterMap ir.instruction?) ∈ g.blocks := by
  obtain ⟨target, blk, hb, hm⟩ := h.sound.exists_block hi
  have hcode : ir.listing? target = some (blk.instructions.filterMap ir.instruction?) := by
    rw [h.compact.listing? h.sound, code?, hb, Option.map_some]
  refine ⟨target, blk, hb, hm, ?_⟩
  rcases mem_append.mp (h.perm.mem_iff.mp (h.ordered.complete target blk hb)) with hname | hpend
  · obtain ⟨filled, hfilled, rfl⟩ := mem_map.mp hname
    rw [← Option.some.inj ((h.blocks filled hfilled).symm.trans hcode)]
    exact hfilled
  · have hempty := Option.some.inj (hcode.symm.trans (h.pending target hpend))
    exact absurd (mem_filterMap.mpr ⟨inst, hm, hi⟩) (hempty ▸ not_mem_nil)

/-- A register that occurs once among those written is written by one instruction. -/
lemma eq_of_writes {other : InstId} (hcount : (g.instructions.filterMap (·.written?)).count id ≤ 1)
    (hw : ir.Writes inst id) (hw' : ir.Writes other id) : inst = other := by
  let placed := g.blocks.flatMap fun blk => ((ir.block? blk.1).map (·.instructions)).getD []
  have hcode : g.instructions = placed.filterMap ir.instruction? := by
    rw [filterMap_flatMap]
    refine flatMap_congr fun filled hm => ?_
    have hlisting := h.blocks filled hm
    rw [h.compact.listing? h.sound, code?] at hlisting
    obtain ⟨blk, hb, heq⟩ := Option.map_eq_some_iff.mp hlisting
    rw [hb, ← heq]
    rfl
  rw [hcode, filterMap_filterMap, count_filterMap, countP_eq_length_filter] at hcount
  have hmem {inst : InstId} (hw : ir.Writes inst id) :
      inst ∈ placed.filter fun inst => (ir.instruction? inst).bind (·.written?) == some id := by
    obtain ⟨instr, hi, hw⟩ := hw
    obtain ⟨target, blk, hb, hm, hin⟩ := h.exists_instructions hi
    refine mem_filter.mpr ⟨mem_flatMap.mpr ⟨_, hin, ?_⟩, ?_⟩
    · rw [hb]
      exact hm
    · rw [hi, Option.bind_some, hw]
      exact beq_self_eq_true _
  have hinst := hmem hw
  have hother := hmem hw'
  revert hcount hinst hother
  generalize placed.filter _ = writers
  rcases writers with _ | ⟨first, _ | ⟨second, rest⟩⟩ <;> simp
  rintro rfl rfl
  rfl

end Draws

end Builder

lemma LoweringState.Drawn.singleAssignment {st : LoweringState} {g : Graph} (h : st.Drawn g order) :
    st.builder.SingleAssignment st.base st.registers := by
  have hwritten {inst : InstId} {id : ObjectId} (hw : st.builder.Writes inst id) :
    ∃ instr, st.builder.instruction? inst = some instr ∧
      st.builder.HasRegister id ∧ id ≠ st.base ∧ (id ∈ st.registers → instr.isMove = true) := by
    obtain ⟨instr, hi, hw⟩ := hw
    exact ⟨instr, hi, h.assigned.written instr (h.draws.live_iff.mp ⟨inst, hi⟩) id hw⟩
  refine ⟨h.draws.slots, h.assigned.nodup, fun inst hw => ?_, fun inst id hm hw => ?_,
    fun id hid inst other => h.draws.eq_of_writes (h.assigned.once id hid), ?_⟩
  · obtain ⟨_, _, _, hne, _⟩ := hwritten hw
    exact hne rfl
  · obtain ⟨instr, hi, -, -, hmove⟩ := hwritten hw
    exact ⟨instr, hi, hmove hm⟩
  · rintro reader id reg ⟨instr, hi, opd, hreads, hnames⟩ hk hid
    obtain ⟨tgt, blk, hb, hm, hin⟩ := h.draws.exists_instructions hi
    obtain ⟨pre, after, heq⟩ := append_of_mem hm
    have hcode : blk.instructions.filterMap st.builder.instruction? =
        pre.filterMap st.builder.instruction? ++ instr :: after.filterMap st.builder.instruction? := by
      rw [heq, filterMap_append, filterMap_cons_some hi]
    -- An address names the data slot only, and other operands are registers.
    have hfound : id ∈ st.base :: st.registers ∨ ∃ writer ∈ pre, st.builder.Writes writer id := by
      have hcases := (h.assigned.settled _ hin).reads hcode hreads
      have hregister (hreg : st.builder.HasRegister opd) : opd = id := by
        refine hnames.resolve_right ?_
        rintro ⟨memory, hmemory, -⟩
        obtain ⟨other, hr⟩ := hreg
        rw [Builder.shape?, hmemory] at hr
        cases hr
      rcases hcases with (⟨⟨literal, hl⟩ | ⟨off, ho⟩⟩ | hlocal) | ⟨writer, hm, hw⟩
      · rcases hnames with rfl | ⟨memory, hmemory, -⟩
        · rw [Builder.shape?, hk] at hl
          cases hl
        · rw [Builder.shape?, hmemory] at hl
          cases hl
      · rcases hnames with rfl | ⟨memory, hmemory, hname⟩
        · rw [Builder.shape?, hk] at ho
          cases ho
        · rw [Builder.shape?, hmemory] at ho
          cases ho
          exact .inl (mem_singleton.mp hname ▸ .head _)
      · exact .inl (hregister (h.locals opd hlocal) ▸ .tail _ hlocal)
      · obtain ⟨inst, hm, hi⟩ := mem_filterMap.mp hm
        have hreg := (h.assigned.written writer (h.draws.live_iff.mp ⟨inst, hi⟩) opd hw).1
        exact .inr ⟨inst, hm, writer, hi, hregister hreg ▸ hw⟩
    obtain ⟨writer, hm, hw⟩ := hfound.resolve_left hid
    exact ⟨tgt, blk, pre, after, writer, hb, heq, hm, hw⟩

namespace Builder

lemma Supports.mono {held : List ObjectId} {set set' : Set InstId} (h : ir.Supports held set inst id)
    (hsub : ∀ inst ∈ set, inst ∈ set') : ir.Supports held set' inst id := by
  cases h with
  | operand hm hne huses => exact .operand (hsub _ hm) hne huses
  | memory hk hname hof => exact .memory hk hname (hof.imp_left fun ⟨other, hm, huses⟩ => ⟨other,
      hsub other hm, huses⟩)
  | root hroot => exact .root hroot

/-- Pruning leaves what writes a temporary if it leaves what reads it. -/
lemma SingleAssignment.prune (h : ir.SingleAssignment base locals) (hp : ir.Prunable [] [] order) :
    ∃ removed pruned, ir.prune = .ok (removed, pruned) ∧ pruned.SingleAssignment base locals := by
  obtain ⟨removed, later, hprune, -, hred, -, hset⟩ := hp.prune
  obtain ⟨gone, -, htakes⟩ := hred.takes
  have hinst {inst : InstId} {instr : Instruction} (hi : later.instruction? inst = some instr) :
      inst ∉ gone ∧ ir.instruction? inst = some instr := by
    rw [htakes.instruction] at hi
    split at hi
    · cases hi
    · exact ⟨‹_›, hi⟩
  have hwrites {inst : InstId} {id : ObjectId} (hw : later.Writes inst id) : ir.Writes inst id := by
    obtain ⟨instr, hi, hw⟩ := hw
    exact ⟨instr, (hinst hi).2, hw⟩
  refine ⟨removed, later, hprune, hred.slots.trans h.slots, h.nodup, fun inst hw => h.slot inst (hwrites hw),
    fun inst id hm hw => ?_,
    fun id hid inst other hw hw' => h.once id hid inst other (hwrites hw) (hwrites hw'), ?_⟩
  · obtain ⟨instr, hi, hmove⟩ := h.moves inst id hm (hwrites hw)
    obtain ⟨_, hi', -⟩ := hw
    cases (hinst hi').2.symm.trans hi
    exact ⟨_, hi', hmove⟩
  · rintro reader id reg ⟨instr, hi, opd, hreads, hnames⟩ hk hid
    obtain ⟨hleft, hi'⟩ := hinst hi
    have hk' : ir.kind? id = some (.register reg) := (hred.kinds id _ hk).resolve_right (by simp)
    have hnames' : opd = id ∨ ∃ memory, ir.kind? opd = some (.memory memory) ∧
        id ∈ (ObjectKind.memory memory).names :=
      hnames.imp_right fun ⟨memory, hm, hname⟩ => ⟨memory, (hred.kinds opd _ hm).resolve_right (by simp), hname⟩
    obtain ⟨tgt, blk, pre, after, writer, hb, heq, hm, instr', hw, hwritten⟩ :=
      h.behind reader id reg ⟨instr, hi', opd, hreads, hnames'⟩ hk' hid
    have hlive : writer ∉ gone := by
      intro hgone
      -- With the writer, what is left would still support itself.
      have huses : ir.Uses reader opd := ⟨instr, hi', Instruction.mem_operands_of_reads hreads⟩
      have hold := (htakes.selfSupporting _).mp hset
      let more : Set InstId := {inst | inst = writer ∨ later.instructions.contains inst = true}
      have hreader : reader ∈ more := .inr (Arena.contains_iff.mpr ⟨instr, hi⟩)
      have hmore : ir.SelfSupporting [] more := by
        refine ⟨fun inst hin => ?_, fun inst hin opcode target others register hinstr hpure hkind => ?_⟩
        · rcases hin with rfl | hin
          · exact Arena.contains_iff.mpr ⟨instr', hw⟩
          · exact hold.live inst hin
        · rcases hin with rfl | hin
          · cases hw.symm.trans hinstr
            obtain rfl : target = id := Option.some.inj ((if_pos hpure).symm.trans hwritten)
            have hne : reader ≠ inst := fun heq => hleft (heq ▸ hgone)
            rcases hnames' with rfl | ⟨memory, hmem, hname⟩
            · exact .operand hreader hne huses
            · exact .memory hmem hname (.inl ⟨reader, hreader, huses⟩)
          · exact (hold.supports inst hin opcode target others register hinstr hpure hkind).mono fun _ => .inr
      obtain ⟨_, hnow⟩ := Arena.contains_iff.mp (((htakes.selfSupporting more).mpr hmore).live writer (.inl rfl))
      exact (hinst hnow).1 hgone
    have hblk := htakes.block tgt
    rw [hb, Option.map_some, heq, filter_append, filter_cons_of_pos (by simpa using hleft)] at hblk
    obtain ⟨left, hleftBlock, hinstrs⟩ := Option.map_eq_some_iff.mp hblk
    refine ⟨tgt, left, _, _, writer, hleftBlock, hinstrs, mem_filter.mpr ⟨hm, by simpa using hlive⟩, instr',
      ?_, hwritten⟩
    rw [htakes.instruction, if_neg hlive]
    exact hw

end Builder

namespace Program

/-- The code of a program, before and after pruning, writes each temporary once
and reads it behind that in the same block. -/
theorem singleAssignment_of_lowering {program : Program} {limit? : Option Nat} {state : LoweringState}
    (h : program.lowering limit? = .ok state) : state.builder.SingleAssignment state.base state.registers ∧
      ∃ removed pruned, state.builder.prune = .ok (removed, pruned) ∧
      pruned.SingleAssignment state.base state.registers := by
  obtain ⟨g, order, hdrawn, -⟩ := drawn_of_lowering h
  exact ⟨hdrawn.singleAssignment, hdrawn.singleAssignment.prune hdrawn.draws.prunable⟩

theorem singleAssignment_of_lowering_unusedLocal : ∃ prog state pruned, parse unusedLocal .twoWords = .ok prog ∧
    prog.lowering none = .ok state ∧ state.registers.length = 2 ∧
    state.builder.SingleAssignment state.base state.registers ∧
      state.builder.prune = .ok (3, pruned) ∧ pruned.SingleAssignment state.base state.registers := by
  have hrun : ((parse unusedLocal .twoWords).toOption.bind fun prog => (prog.lowering none).toOption.bind
    fun state =>
      state.builder.prune.toOption.map fun res => (state.registers.length, res.1)) =
        some (2, 3) := by decide +kernel
  have hok {ε α : Type} {res : Except ε α} {a : α} (h : res.toOption = some a) : res = .ok a := by
    cases res <;> cases h
    rfl
  obtain ⟨prog, hparse, hrun⟩ := Option.bind_eq_some_iff.mp hrun
  obtain ⟨state, hstate, hrun⟩ := Option.bind_eq_some_iff.mp hrun
  have hstate := hok hstate
  obtain ⟨hbefore, removed, pruned, hprune, hafter⟩ := singleAssignment_of_lowering hstate
  rw [hprune] at hrun
  obtain ⟨hcount, hremoved⟩ := Prod.mk.inj (Option.some.inj hrun)
  dsimp only at hremoved
  subst hremoved
  exact ⟨prog, state, pruned, hok hparse, hstate, hcount, hbefore, hprune, hafter⟩

end Program

end Shading
