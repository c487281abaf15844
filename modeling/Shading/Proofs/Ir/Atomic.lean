import Shading.Proofs.Ir.Teardown

/-!
# Operations that fail

An operation that fails changes nothing, but for the number that a new
register uses up.  Checks come first and room is asked for before anything
changes; what follows cannot fail in a builder in good order.  An instruction
that is removed by its handle must not name blocks: its slot still holds it, so
that it can be removed a second time with the block (`Builder.changed_by_deleteInst`).
-/

namespace Shading

open List Option

namespace Build

open Builder

variable {α β : Type} {ir : Builder} {id : ObjectId}

/-! ## Removal that succeeds -/

lemma releaseRegister_ok {reg : Register} {refs bound : Nat} (ho : ir.object? id = some ⟨.register reg, refs + 1⟩)
    (hbound : bound ≠ 0) :
    Gives (releaseWith (deleteUpTo bound) id) ir fun _ later =>
      (∀ other, other ≠ id → later.object? other = ir.object? other) ∧
        (refs ≠ 0 → later.object? id = some ⟨.register reg, refs⟩) := by
  obtain ⟨bound, rfl⟩ := Nat.exists_eq_succ_of_ne_zero hbound
  have hobj := object?_setObject ho fun obj => { obj with refs := obj.refs - 1 }
  have hself := (hobj id).trans (if_pos rfl)
  have hothers (other : ObjectId) (hne : other ≠ id) := (hobj other).trans (if_neg hne)
  unfold releaseWith
  refine .step (object_run ho) ?_
  rw [if_neg (Nat.succ_ne_zero refs)]
  refine .step (modifyObject_run _) ?_
  split
  · rename_i hone
    rw [deleteUpTo]
    refine .step (object_run hself) (.of_run rfl ⟨fun other hne => ?_, fun hpos =>
      absurd (Nat.succ.inj hone) hpos⟩)
    exact (Arena.get?_erase_of_ne hself hne).trans (hothers other hne)
  · exact .pure ⟨hothers, fun _ => hself⟩

/-- The registers of a memory operand are released, which they can bear. -/
lemma deleteMemory_ok {opd : MemoryOperand} {refs bound : Nat} (ho : ir.object? id = some ⟨.memory opd, refs⟩)
    (hnames : ∀ name ∈ (ObjectKind.memory opd).names, ∃ reg count,
      ir.object? name = some ⟨.register reg, count⟩ ∧ (ObjectKind.memory opd).names.count name ≤ count)
    (hbound : 1 < bound) : Gives (deleteUpTo bound id) ir fun _ _ => True := by
  obtain ⟨base, index?, off⟩ := opd
  obtain ⟨bound, rfl⟩ : ∃ n, bound = n + 1 := ⟨bound - 1, by omega⟩
  have hpos : bound ≠ 0 := by omega
  obtain ⟨reg, count, hbase, hcount⟩ := hnames base (.head _)
  rw [ObjectKind.names, count_cons_self] at hcount
  obtain ⟨count, rfl⟩ : ∃ n, count = n + 1 := ⟨count - 1, by omega⟩
  rw [deleteUpTo]
  refine .step (object_run ho) (.bind (releaseRegister_ok hbase hpos) ?_)
  rintro - mid ⟨hothers, hself⟩
  cases index? with
  | none => exact .of_run rfl trivial
  | some index =>
    obtain ⟨reg', count', hindex, hcount'⟩ := hnames index (.tail _ (mem_singleton_self index))
    -- The index can be the base, which then had two references.
    have hlive : ∃ n, mid.object? index = some ⟨.register reg', n + 1⟩ := by
      by_cases heq : index = base
      · subst heq
        rw [toList_some, count_singleton_self] at hcount
        rw [hbase] at hindex
        obtain ⟨rfl, -⟩ : reg = reg' ∧ count + 1 = count' := by simpa using hindex
        exact ⟨count - 1, (hself (by omega)).trans (by rw [Nat.sub_add_cancel (by omega)])⟩
      · rw [ObjectKind.names, count_cons_of_ne (Ne.symm heq), toList_some, count_singleton_self] at hcount'
        exact ⟨count' - 1, (hothers index heq).trans (by rw [hindex, Nat.sub_add_cancel hcount'])⟩
    obtain ⟨n, hindex'⟩ := hlive
    exact .bind (releaseRegister_ok hindex' hpos) fun _ _ _ => .of_run rfl trivial

variable {held gone : List ObjectId}

/-- Removing a live object succeeds, whatever its count. -/
lemma deleteObject_ok {obj : Object} {given : Builder} (h : ir.Clearable held gone) (ho : ir.object? id = some obj)
    (hgiven : ir.Recounted id given) : Gives (deleteObject id) given fun _ _ => True := by
  obtain ⟨kind, refs⟩ := obj
  obtain ⟨refs', hself⟩ := object?_eq_of_kind? ((hgiven.kind id).trans (kind?_of_object? ho))
  have hpos := Arena.live_pos h.steady.1.objects ho
  refine .step rfl ?_
  rw [hgiven.live]
  cases kind with
  | register reg => exact .step (object_run hself) (.of_run rfl trivial)
  | immediate opd => exact .step (object_run hself) (.step rfl (.of_run rfl trivial))
  | memory opd =>
    refine deleteMemory_ok hself (fun name hm => ?_) (by omega)
    obtain ⟨reg, hr⟩ := h.steady.1.registers id _ (kind?_of_object? ho) not_mem_nil name hm
    obtain ⟨count, hname⟩ := object?_eq_of_kind? hr
    have hne : name ≠ id := by
      rintro rfl
      rw [ho] at hname
      cases hname
    refine ⟨reg, count, (hgiven.others name hne).trans hname, ?_⟩
    have hcount := (h.steady.1.close ho not_mem_nil).refs name _ hname
    rw [count_append] at hcount
    dsimp only at hcount
    omega
  | block block =>
    refine (deleteUpTo_block (block?_of_kind? (kind?_of_object? hself))
      (deleteBlock_steady (deleteUpTo_deletes _) h.steady hgiven
      (block?_of_kind? (kind?_of_object? ho)) (fun _ => h.room) (subset_cons_self id gone) (fun _ hm =>
        mem_cons.mp hm)
      (.inr (.head _)) (Nat.le_refl _))).mono fun _ _ _ => trivial

/-! ## Operations that fail -/

/-- An action that fails changes nothing. -/
def Atomic (action : Build α) (ir : Builder) : Prop :=
  Ends action ir (fun _ _ => True) fun _ later => later = ir

namespace Atomic

variable {act : Build α} {post : α → Builder → Prop}

lemma of_gives (h : Gives act ir post) : Atomic act ir :=
  Ends.of_gives (h.mono fun _ _ _ => trivial)

lemma of_ends (h : Ends act ir post fun _ later => later = ir) : Atomic act ir :=
  h.mono (fun _ _ _ => trivial) fun _ _ heq => heq

lemma fail (fault : BuilderFault) : Atomic (Build.fail fault : Build α) ir := .of_error rfl rfl

lemma check {x : Build α} {f : α → Build β} {found : α → Prop} (hx : Checks x ir found)
    (hf : ∀ a, found a → Atomic (f a) ir) : Atomic (x >>= f) ir := Ends.check hx (fun _ _ => rfl) hf

lemma discard (h : Atomic act ir) : Atomic (discard act) ir :=
  Ends.bind h fun _ _ _ => .of_gives (.pure trivial)

end Atomic

lemma retain_atomic (id : ObjectId) : Atomic (retain id) ir :=
  .check (object_checks ir id) fun _ _ => Ends.of_gives (.of_run (modifyObject_run _) trivial)

section

variable (h : ir.Clearable held gone)

include h

lemma fixupBlocks_atomic : Atomic fixupBlocks ir := by
  obtain ⟨hs, order, horder⟩ := h.steady
  exact .of_gives (fixupBlocks_gives hs horder)

lemma removeInst_atomic (tgt : ObjectId) (slot : Nat) : Atomic (removeInst tgt slot) ir := by
  by_cases hslot : ∃ block inst, ir.block? tgt = some block ∧ block.slots[slot]? = some (some inst)
  · obtain ⟨block, inst, hb, hslot⟩ := hslot
    exact .of_gives (removeInst_steady h.steady hb hslot)
  · refine .check (block_checks ir tgt) fun block hb => ?_
    split
    · exact .fail _
    · rename_i inst hjoin
      exact absurd ⟨block, inst, hb, join_eq_some_iff.mp hjoin⟩ hslot

lemma deleteObject_atomic (id : ObjectId) : Atomic (deleteObject id) ir := by
  cases ho : ir.object? id with
  | some obj => exact .of_gives (deleteObject_ok h ho (.refl ir id))
  | none =>
    refine Ends.step rfl ?_
    rw [deleteUpTo]
    refine Atomic.check (object_checks ir id) fun obj hobj => ?_
    rw [ho] at hobj
    cases hobj

lemma release_atomic (id : ObjectId) : Atomic (release id) ir := by
  refine .check (object_checks ir id) fun obj ho => ?_
  split
  · exact .fail _
  · refine Ends.of_gives (.step (modifyObject_run _) ?_)
    split
    · exact deleteObject_ok h ho (.setRefs ho (· - 1))
    · exact .pure trivial

lemma clear_atomic : Atomic clear ir := .of_gives (clear_gives h)

lemma deleteInst_atomic {inst : InstId} (hblocks : ∀ instr, ir.instruction? inst = some instr →
    ∀ opd ∈ instr.operands, ir.block? opd = none) : Atomic (deleteInst inst) ir := by
  refine Ends.step rfl ?_
  cases hi : ir.instruction? inst with
  | none => exact .of_error rfl rfl
  | some instr =>
    -- Blocks and slots are not looked at: the account is that of an instruction without operands.
    exact .of_gives (.bind (releaseOperands_gives (h.steady.1.strip hi) (hblocks instr hi))
      fun _ _ _ => .of_run rfl trivial)

end

end Build

/-! ## Every command -/

/-- The command makes a register. -/
def Command.makesRegister : Command → Bool
  | .operation (.newRegister _ _) | .operation (.newRegisterFor _) => true
  | _ => false

namespace Builder

open Build

variable {ir builder later : Builder} {slots : Nat} {limit? : Option Nat} {ledger : Ledger} {command : Command}
  {error : IrError}

/-- What a command leaves that fails. -/
def LeftBy (ir : Builder) (command : Command) (later : Builder) : Prop :=
  later = ir ∨ command.makesRegister = true ∧ later = { ir with registerCount := ir.registerCount + 1 }

lemma leftBy_perform {held gone : List ObjectId} (h : ir.Clearable held gone) (command : Command)
    (hinst : ∀ inst instr, command = .deleteInst inst → ir.instruction? inst = some instr →
      ∀ opd ∈ instr.operands, ir.block? opd = none) : Ends command.perform ir (fun _ _ => True) fun _ =>
      ir.LeftBy command := by
  obtain ⟨order, hneat⟩ := h.neat
  have hatomic {act : Build Unit} (haction : Atomic act ir) :
      Ends act ir (fun _ _ => True) fun _ => ir.LeftBy command :=
    Ends.mono haction (fun _ _ _ => trivial) fun _ _ heq => .inl heq
  have hreg {registerClass : RegisterClass} {width : Nat} (hmakes : command.makesRegister = true) :
      Ends (discard (allocRegister registerClass width)) ir (fun _ _ => True) fun _ => ir.LeftBy command :=
    Ends.bind ((allocRegister_stores hneat.wellFormed registerClass width).mono (fun _ _ hstores => hstores)
      fun _ _ heq => .inr ⟨hmakes, heq.1⟩) fun _ _ _ => .of_gives (.pure trivial)
  have hemit {tgt : ObjectId} {opcode : Opcode} {opds : List ObjectId} : Atomic (emit tgt opcode opds) ir :=
    .of_ends (emit_advances hneat tgt opcode opds)
  cases command with
  | operation inside =>
    cases inside with
    | newRegisterFor type | newRegister registerClass width => exact hreg rfl
    | newMemory base index? off =>
      exact hatomic (Atomic.of_ends (newMemory_advances hneat base index? off)).discard
    | newImmediate val registerClass width | newImmediateFor val type =>
      exact hatomic (Atomic.of_ends (internImmediate_advances hneat _)).discard
    | newBlock => exact hatomic (Atomic.of_ends (newBlock_advances hneat)).discard
    | initEntry => exact hatomic (Atomic.of_ends (initEntry_advances hneat)).discard
    | moveToEnd id => exact hatomic (.of_ends (moveToEnd_advances hneat id))
    | emit tgt opcode opds => exact hatomic hemit.discard
    | emitMove tgt dst src =>
      exact hatomic (Atomic.discard (emitMove_ends dst src (fun _ => rfl) fun _ _ => hemit))
    | emitFetch tgt dst src =>
      exact hatomic (Atomic.discard (emitFetch_ends dst src (fun _ => rfl) fun _ _ => hemit))
    | emitStore tgt dst src =>
      exact hatomic (Atomic.discard (emitStore_ends dst src (fun _ => rfl) fun _ _ => hemit))
    | removeInst tgt slot => exact hatomic (removeInst_atomic h tgt slot)
    | fixupBlocks => exact hatomic (fixupBlocks_atomic h)
    | deleteBlock id => exact hatomic (deleteObject_atomic h id)
    | retain id => exact hatomic (retain_atomic id)
    | release id => exact hatomic (release_atomic h id)
  | deleteInst inst => exact hatomic (deleteInst_atomic h fun instr => hinst inst instr rfl)
  | clear => exact hatomic (clear_atomic h)

/-- A command that fails changes nothing, but for the number that a new
register uses up.  A live instruction that names blocks is removed through its
slot. -/
theorem unchanged_of_error (h : Reached slots limit? builder ledger)
    (hinst : ∀ inst instruction, command = .deleteInst inst → builder.instruction? inst = some instruction →
      ∀ operand ∈ instruction.operands, builder.block? operand = none)
    (hrun : command.perform.run.run builder = (.error error, later)) :
    later = builder ∨ command.makesRegister = true ∧
    later = { builder with registerCount := builder.registerCount + 1 } := by
  have hends := leftBy_perform h.clearable command hinst
  rw [Ends, hrun] at hends
  exact hends

/-- The second operand was never made. -/
theorem unchanged_of_error_emit : ∃ builder ledger error later, Reached 1 none builder ledger ∧
    (Command.operation (.emit ⟨1, 0⟩ (.scalar .jmp) [⟨1, 0⟩, ⟨2, 0⟩])).perform.run.run builder =
    (.error error, later) ∧ later = builder := by
  have hcreated : Reached 1 none _ _ := .create rfl
  have hblock := Reached.step .newBlock hcreated (by decide +kernel) trivial
  have hunchanged := @unchanged_of_error _ _ _ _ _
    (.operation (.emit ⟨1, 0⟩ (.scalar .jmp) [⟨1, 0⟩, ⟨2, 0⟩])) _ hblock nofun rfl
  exact ⟨_, _, _, _, hblock, rfl, hunchanged.resolve_right fun hregister => Bool.false_ne_true hregister.1⟩

/-- The block and the register are freed before the removal fails. -/
theorem changed_by_deleteInst : ∃ builder ledger inst instruction error later, Reached 0 none builder ledger ∧
    builder.instruction? inst = some instruction ∧ (Build.deleteInst inst).run.run builder =
    (.error error, later) ∧ later.objects.live < builder.objects.live := by
  have hcreated : Reached 0 none _ _ := .create rfl
  have hblock := Reached.step .newBlock hcreated (by decide +kernel) trivial
  have hregister := Reached.step (.newRegister .general 8) hblock (by decide +kernel) trivial
  have hmemory := Reached.step (.newMemory ⟨1, 0⟩ none 0) hregister (by decide +kernel) trivial
  have hinst := Reached.step (.emit ⟨0, 0⟩ (.scalar .jmp) [⟨1, 0⟩, ⟨0, 0⟩, ⟨2, 0⟩]) hmemory
    (by decide +kernel) trivial
  exact ⟨_, _, ⟨0, 0⟩, _, _, _, hinst, rfl, rfl, by decide +kernel⟩

end Builder

end Shading
