import Shading.Proofs.Ir.BlockList
import Shading.Proofs.Ir.Prune

/-!
# What pruning leaves

Pruning takes out dead instructions until there are none.  In whatever order it
does so, what is left is the largest set of instructions that supports itself
(`Builder.survivors_of_prune`).
-/

namespace Shading

open Build List

namespace Builder

variable {ir builder : Builder} {ledger : Ledger} {slots : Nat} {limit? : Option Nat}
  {held lost order : List ObjectId}

/-- Blocks are operands of jumps only. -/
def BlocksInJumps (ir : Builder) : Prop := ∀ entry ∈ ir.instructions.entries, ∀ id ∈ entry.2.operands,
  (ir.block? id).isSome = true → entry.2.opcode.code = .jmp ∨ entry.2.opcode.code = .jnz

lemma Reached.used (h : Reached slots limit? ir ledger) : Used slots limit? ir := by
  induction h with
  | create h => exact .create h
  | step operation _ _ _ ih => exact ih.step (.operation operation)

/-- So is every builder that operations lead to. -/
lemma Reached.prunable (h : Reached slots limit? ir ledger) (hjumps : ir.BlocksInJumps) :
    ∃ order, ir.Prunable ledger.held ledger.removed order := by
  obtain ⟨⟨hs, order, horder⟩, -⟩ := h.steady
  refine ⟨order, hs, horder, h.used.marked, fun inst instr hi hpure id hm => ?_⟩
  cases hb : ir.block? id with
  | none => rfl
  | some blk =>
    rcases hjumps (inst, instr) (Arena.mem_entries.mpr hi) id hm (by rw [hb]; rfl) with hcode | hcode
    all_goals
      dsimp only at hcode
      rw [hcode] at hpure
      cases hpure

/-- Pruning leaves the largest set of instructions that supports itself, each
in its block and in the order they had. -/
theorem survivors_of_prune (h : builder.Prunable held lost order) :
    ∃ removed later, builder.prune = .ok (removed, later) ∧
      IsGreatest {set | builder.SelfSupporting held set} {inst | later.instructions.contains inst = true} ∧
      (∀ inst, later.instructions.contains inst = true → later.instruction? inst = builder.instruction? inst) ∧
      (∀ id, (later.block? id).map (·.instructions) =
        (builder.block? id).map fun block => block.instructions.filter later.instructions.contains) ∧
      removed + later.instructions.live = builder.instructions.live ∧ later.Compact ∧
      ∃ last, later.prune = .ok (0, last) ∧ ∀ inst, last.instruction? inst = later.instruction? inst := by
  obtain ⟨removed, later, hprune, hlater, hred, hcompact, hset⟩ := h.prune
  obtain ⟨gone, rfl, htakes⟩ := hred.takes
  obtain ⟨again, last, hagain, -, hreduces', -⟩ := hlater.prune
  obtain ⟨gone', rfl, htakes'⟩ := hreduces'.takes
  have hgone' : gone' = [] := by
    refine eq_nil_iff_forall_not_mem.mpr fun inst hm => ?_
    -- All that is left supports itself, so it is left again.
    obtain ⟨instr, hold, -⟩ := htakes'.pure inst hm
    obtain ⟨_, hi⟩ := Arena.contains_iff.mp
      (((htakes'.selfSupporting _).mpr hset).live inst (Arena.contains_iff.mpr ⟨instr, hold⟩))
    have hnone := htakes'.instruction inst
    rw [if_pos hm] at hnone
    cases hnone.symm.trans hi
  subst hgone'
  refine ⟨gone.length, later, hprune, ⟨(htakes.selfSupporting _).mp hset, fun set hs =>
    ((htakes.selfSupporting set).mpr hs).live⟩,
    fun inst hc => ?_, fun id => ?_, htakes.count, hcompact, last, hagain, htakes'.instruction⟩
  · obtain ⟨instr, hi⟩ := Arena.contains_iff.mp hc
    have hinst := htakes.instruction inst
    split at hinst
    · cases hinst.symm.trans hi
    · exact hinst
  · rw [htakes.block]
    cases hb : builder.block? id with
    | none => rfl
    | some block =>
      obtain ⟨refs, ho⟩ := object?_of_block? hb
      rw [Option.map_some, Option.map_some]
      refine congrArg some (filter_congr fun inst hm => ?_)
      have hlive := (h.sound.nodup_placed ho).1 inst hm
      have hcont : later.instructions.contains inst = (if inst ∈ gone then none
          else builder.instruction? inst).isSome :=
        congrArg Option.isSome (htakes.instruction inst)
      rw [hcont]
      split
      · rename_i hin
        simpa using hin
      · rename_i hout
        rw [decide_eq_true hout]
        exact hlive.symm

/-- A copy of a copy that nothing reads: both go. -/
theorem survivors_of_prune_copies : ∃ builder later, Reached 1 none builder ⟨[], []⟩ ∧
    builder.instructions.live = 2 ∧ builder.prune = .ok (2, later) ∧ later.instructions.live = 0 := by
  have hmade : Reached 1 none _ _ := .create rfl
  have hblock := Reached.step .newBlock hmade (by decide +kernel) trivial
  have hfirst := Reached.step (.newRegister .general 8) hblock (by decide +kernel) trivial
  have hsecond := Reached.step (.newRegister .general 8) hfirst (by decide +kernel) trivial
  have hcopy := Reached.step (.emitMove ⟨1, 0⟩ ⟨2, 0⟩ ⟨0, 0⟩) hsecond (by decide +kernel) trivial
  have hcopies := Reached.step (.emitMove ⟨1, 0⟩ ⟨3, 0⟩ ⟨2, 0⟩) hcopy (by decide +kernel) trivial
  generalize hir : (Operation.perform (.emitMove ⟨1, 0⟩ ⟨3, 0⟩ ⟨2, 0⟩)).run.run _ = made at hcopies
  have hlive : made.2.instructions.live = 2 ∧ made.2.prune.toOption.map Prod.fst = some 2 ∧
      made.2.BlocksInJumps := by
    rw [← hir]
    unfold BlocksInJumps
    decide +kernel
  obtain ⟨order, hprunable⟩ := hcopies.prunable hlive.2.2
  obtain ⟨removed, later, hprune, -, -, -, hcount, -⟩ := survivors_of_prune hprunable
  have hremoved : removed = 2 := by
    have htwo := hlive.2.1
    rw [hprune] at htwo
    exact Option.some.inj htwo
  subst hremoved
  exact ⟨_, later, hcopies, hlive.1, hprune, by omega⟩

end Builder

end Shading
