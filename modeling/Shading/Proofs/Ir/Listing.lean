import Shading.Proofs.Ir.Operations

/-!
# The instructions of a block

`Builder.listing?` gives the instructions of a block that has no empty slot.
An operation that appends to one block leaves the listings of the others.  A
block is without references just if no instruction names it and it is not the
entry block.
-/

namespace Shading

open Arena List Option

variable {code : List Instruction} {block : Block} {id other : ObjectId} {ir : Builder} {order : List ObjectId}
  {slots : List (Option InstId)} {kind : ObjectKind} {closing held : List ObjectId} {inst : InstId}
  {instr : Instruction}

namespace Builder

variable {later : Builder}

/-- Instructions in slots, unless one is empty. -/
def resolve? (ir : Builder) (slots : List (Option InstId)) : Option (List Instruction) :=
  slots.mapM fun slot => slot.bind ir.instruction?

/-- The instructions of a block without empty slots. -/
def listing? (ir : Builder) (id : ObjectId) : Option (List Instruction) :=
  (ir.block? id).bind fun block => ir.resolve? block.slots

lemma resolve?_append (a b : List (Option InstId)) :
    ir.resolve? (a ++ b) = (ir.resolve? a).bind fun first => (ir.resolve? b).map (first ++ ·) := by
  simp only [resolve?, mapM_append]
  cases a.mapM fun slot => slot.bind ir.instruction? with
  | none => rfl
  | some first => cases b.mapM fun slot => slot.bind ir.instruction? <;> rfl

lemma resolve?_singleton (inst : InstId) : ir.resolve? [some inst] = (ir.instruction? inst).map ([·]) := by
  simp only [resolve?, mapM_cons, mapM_nil, bind_some]
  cases ir.instruction? inst <;> rfl

lemma resolve?_cons (slot : Option InstId) (rest : List (Option InstId)) : ir.resolve? (slot :: rest) =
    (slot.bind ir.instruction?).bind fun first => (ir.resolve? rest).map (first :: ·) := by
  simp only [resolve?, mapM_cons]
  cases slot.bind ir.instruction? with
  | none => rfl
  | some first => cases rest.mapM fun slot => slot.bind ir.instruction? <;> rfl

/-- Slots that are resolved still are if instructions stay. -/
lemma resolve?_of_le (h : ir.resolve? slots = some code)
    (hle : ∀ inst instr, ir.instruction? inst = some instr → later.instruction? inst = some instr) :
    later.resolve? slots = some code := by
  induction slots generalizing code with
  | nil => exact h
  | cons slot rest ih =>
    rw [resolve?_cons] at h ⊢
    obtain ⟨first, hfirst, h⟩ := bind_eq_some_iff.mp h
    obtain ⟨others, hrest, rfl⟩ := map_eq_some_iff.mp h
    obtain ⟨inst, rfl, hinst⟩ := bind_eq_some_iff.mp hfirst
    rw [bind_some, hle inst first hinst, ih hrest]
    rfl

lemma mem_of_resolve? (h : ir.resolve? slots = some code) (instr : Instruction) :
    instr ∈ code ↔ ∃ inst, some inst ∈ slots ∧ ir.instruction? inst = some instr := by
  induction slots generalizing code with
  | nil =>
    cases h
    simp
  | cons slot rest ih =>
    rw [resolve?_cons] at h
    obtain ⟨first, hfirst, h⟩ := bind_eq_some_iff.mp h
    obtain ⟨others, hrest, rfl⟩ := map_eq_some_iff.mp h
    obtain ⟨inst, rfl, hinst⟩ := bind_eq_some_iff.mp hfirst
    rw [mem_cons, ih hrest]
    constructor
    · rintro (rfl | ⟨other, hm, hother⟩)
      · exact ⟨inst, mem_cons_self .., hinst⟩
      · exact ⟨other, mem_cons_of_mem _ hm, hother⟩
    · rintro ⟨other, hm, hother⟩
      rcases mem_cons.mp hm with heq | hm
      · rw [some.inj heq, hinst, some.injEq] at hother
        exact .inl hother.symm
      · exact .inr ⟨other, hm, hother⟩

lemma listing?_of_shape? (h : ir.shape? id = some (.block block)) :
    ir.listing? id = ir.resolve? block.slots := by
  obtain ⟨inside, hb, heq⟩ := block?_of_shape? h
  have hslots : inside.unlinked.slots = block.slots := congrArg Block.slots heq
  rw [listing?, hb, bind_some, ← hslots]
  rfl

lemma shape?_of_listing? (h : ir.listing? id = some code) :
    ∃ block, ir.shape? id = some (.block block) ∧ ir.resolve? block.slots = some code := by
  obtain ⟨block, hb, hcode⟩ := bind_eq_some_iff.mp h
  exact ⟨block.unlinked, shape?_of_block? hb, hcode⟩

/-- Instructions of a listing are stored. -/
lemma instruction?_of_listing? {instr : Instruction} (h : ir.listing? id = some code) (hi : instr ∈ code) :
    ∃ inst, ir.instruction? inst = some instr := by
  obtain ⟨block, -, hcode⟩ := shape?_of_listing? h
  obtain ⟨inst, -, hinst⟩ := (mem_of_resolve? hcode instr).mp hi
  exact ⟨inst, hinst⟩

/-- Blocks and instructions that stay keep the listing. -/
lemma listing?_of_le (h : ir.listing? id = some code)
    (hshape : ∀ block, ir.shape? id = some (.block block) → later.shape? id = some (.block block))
    (hle : ∀ inst instr, ir.instruction? inst = some instr → later.instruction? inst = some instr) :
    later.listing? id = some code := by
  obtain ⟨block, hb, hcode⟩ := shape?_of_listing? h
  rw [listing?_of_shape? (hshape block hb)]
  exact resolve?_of_le hcode hle

lemma Same.instruction?_eq (h : ir.Same later) (inst : InstId) :
    later.instruction? inst = ir.instruction? inst := by
  rw [instruction?, h.instructions, instruction?]

lemma Same.listing? (h : ir.Same later) (hc : ir.listing? id = some code) : later.listing? id = some code :=
  listing?_of_le hc (fun _ hb => (h.shape id).trans hb) fun inst _ hi => (h.instruction?_eq inst).trans hi

lemma Adds.instruction?_eq (h : ir.Adds other kind later) (inst : InstId) :
    later.instruction? inst = ir.instruction? inst := by
  rw [instruction?, h.instructions, instruction?]

lemma Adds.listing? (h : ir.Adds other kind later)
    (hc : ir.listing? id = some code) : later.listing? id = some code :=
  listing?_of_le hc (fun _ hb => h.shape?_of_some hb) fun inst _ hi => (h.instruction?_eq inst).trans hi

lemma Adds.listing?_self (h : ir.Adds id (.block block) later) (hs : block.slots = []) :
    later.listing? id = some [] := by
  rw [listing?_of_shape? h.self, hs]
  rfl

section

variable {tgt : ObjectId} {inst : InstId} {instr : Instruction}

section

variable (h : ir.Appends tgt inst instr later)
include h

lemma Appends.instruction?_le {other : InstId} {old : Instruction}
    (hi : ir.instruction? other = some old) : later.instruction? other = some old := by
  rw [h.instruction, if_neg, hi]
  rintro rfl
  rw [h.fresh] at hi
  cases hi

lemma Appends.listing?_self (hc : ir.listing? tgt = some code) : later.listing? tgt = some (code ++ [instr]) := by
  obtain ⟨block, hb, hshape⟩ := h.shape
  rw [listing?_of_shape? hb] at hc
  have hself : later.instruction? inst = some instr := (h.instruction inst).trans (if_pos rfl)
  rw [listing?_of_shape? ((hshape tgt).trans (if_pos rfl)), resolve?_append, resolve?_singleton,
    resolve?_of_le hc fun _ _ => h.instruction?_le, hself]
  rfl

lemma Appends.listing? (hne : id ≠ tgt) (hc : ir.listing? id = some code) : later.listing? id = some code := by
  obtain ⟨block, hb, hshape⟩ := h.shape
  exact listing?_of_le hc (fun _ hb => (hshape id).trans ((if_neg hne).trans hb)) fun _ _ => h.instruction?_le

end

end

/-! ## Names of blocks -/

/-- A live instruction stands in a live block. -/
lemma Sound.exists_block {gone : List ObjectId}
    (h : ir.Sound held [] closing gone) (hi : ir.instruction? inst = some instr) :
    ∃ id block, ir.block? id = some block ∧ inst ∈ block.instructions := by
  have hplaced := h.placed inst
  rw [if_pos (Arena.contains_iff.mpr ⟨instr, hi⟩), count_nil, Nat.add_zero, placements, Arena.collect_nil]
    at hplaced
  have hm : inst ∈ ir.objects.entries.flatMap fun entry => entry.2.kind.placed :=
    count_pos_iff.mp (by rw [hplaced]; exact Nat.one_pos)
  obtain ⟨⟨id, kind, refs⟩, hentry, hm⟩ := mem_flatMap.mp hm
  cases kind with
  | block inside => exact ⟨id, inside, block?_of_kind? (kind?_of_object? (mem_entries.mp hentry)), hm⟩
  | _ => cases hm

/-- Operands of a live instruction are live. -/
lemma Sound.named (h : ir.Sound held [] closing []) (hi : ir.instruction? inst = some instr)
    (hm : id ∈ instr.operands) : ∃ obj, ir.object? id = some obj := by
  have hmem : id ∈ ir.operandNames [] := by
    rw [operandNames, collect_nil]
    exact mem_flatMap.mpr ⟨(inst, instr), mem_entries.mpr hi, hm⟩
  have hpos : 0 < ir.nameCount [] closing id + held.count id := by
    have hcount := count_pos_iff.mpr hmem
    unfold nameCount
    omega
  exact contains_iff.mp ((h.solid id hpos).resolve_right not_mem_nil)

/-- Only instructions and the builder name blocks. -/
lemma Sound.refs?_block (h : ir.Sound [] [] [] []) (hb : ir.block? id = some block)
    (hroot : id ∉ ir.rootNames) : ir.refs? id = some 0 ↔
      ∀ inst instr, ir.instruction? inst = some instr → id ∉ instr.operands := by
  obtain ⟨refs, ho⟩ := object?_of_block? hb
  have hmemory : (ir.memoryNames []).count id = 0 := by
    rw [count_eq_zero, memoryNames, collect_nil]
    intro hm
    obtain ⟨⟨other, obj⟩, hentry, hm⟩ := mem_flatMap.mp hm
    obtain ⟨reg, hr⟩ := h.registers other obj.kind (kind?_of_object? (mem_entries.mp hentry)) not_mem_nil id hm
    rw [kind?_of_block? hb] at hr
    cases hr
  have hcount : refs = (ir.operandNames []).count id := by
    have hrefs := h.refs id _ ho
    rw [nameCount, hmemory, count_eq_zero.mpr hroot, count_nil] at hrefs
    exact hrefs
  rw [refs?, ho, map_some, some.injEq]
  change refs = 0 ↔ _
  rw [hcount, count_eq_zero, operandNames, collect_nil, mem_flatMap]
  constructor
  · intro hnot inst instr hi hm
    exact hnot ⟨(inst, instr), mem_entries.mpr hi, hm⟩
  · rintro hall ⟨⟨inst, instr⟩, hentry, hm⟩
    exact hall inst instr (mem_entries.mp hentry) hm

/-- An object is gone; all else is as before. -/
structure Removes (ir : Builder) (id : ObjectId) (later : Builder) : Prop where
  shape : ∀ other, later.shape? other = if other = id then none else ir.shape? other
  instructions : later.instructions = ir.instructions
  slots : later.dataSlots = ir.dataSlots
  entry : later.entryBlock? = ir.entryBlock?
  immediates : later.immediates = ir.immediates

lemma Removes.listing? (h : ir.Removes id later) (hne : other ≠ id)
    (hc : ir.listing? other = some code) : later.listing? other = some code :=
  listing?_of_le hc (fun _ hb => (h.shape other).trans ((if_neg hne).trans hb)) fun inst _ hi => by
    rw [instruction?, h.instructions]
    exact hi

end Builder

namespace Build

open Builder

/-- A block that is empty and has no references goes without a trace. -/
lemma deleteEmptyBlock_gives (h : ir.Sound [] [] [] []) (horder : ir.Ordered order)
    (hb : ir.block? id = some block) (hempty : block.instructions = []) (hrefs : ir.refs? id = some 0)
    (hentry : ir.entryBlock? ≠ some id) :
    Gives (deleteObject id) ir fun _ later => later.Sound [] [] [] [] ∧ later.Ordered (order.erase id) ∧
      ir.Removes id later := by
  obtain ⟨pre, after, rfl, hnot, herase⟩ := horder.split hb
  rw [herase]
  obtain ⟨refs, ho⟩ := object?_of_block? hb
  have hzero : refs = 0 := by rwa [refs?, ho, map_some, some.injEq] at hrefs
  refine .step rfl (deleteUpTo_block hb ?_)
  rw [hempty]
  refine .bind (unlink_gives horder.toListed) ?_
  rintro - mid ⟨hlisted, hcut⟩
  have hsame := Same.of_unlinked (@unlinked_erase ir id mid hcut)
  have hfreed := ((h.close ho not_mem_nil).free ho h.room (List.Subset.refl []) (fun _ hm => .inr hm) (.inl hzero)
    (.inl hzero)).relink (unlinked_erase hcut)
  rw [show ObjectKind.placed (.block block) = [] from hempty] at hfreed
  obtain ⟨block', hb', -⟩ := block?_of_unlinked hcut hb
  obtain ⟨refs', ho'⟩ := object?_of_block? hb'
  have hforget : mid.entryBlock? ≠ some id := fun heq => hentry (hsame.entry.symm.trans heq)
  refine .step rfl (.step (congrArg (Prod.mk _) (if_neg hforget)) (.pure ⟨hfreed, horder.free hlisted hcut ho',
    fun other => ?_, hsame.instructions, hsame.slots, hsame.entry, hsame.immediates⟩))
  rw [hsame.shape, shape?, kind?, object?]
  split
  · rename_i heq
    rw [heq, get?_erase_self ho]
    rfl
  · rename_i hne
    rw [get?_erase_of_ne ho hne]
    rfl

end Build

end Shading
