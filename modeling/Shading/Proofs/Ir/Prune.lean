import Shading.Proofs.Ir.Support
import Shading.Proofs.Run.Trace

/-!
# Pruning

A dead instruction is pure and writes a register that is named only by the
instruction itself, so taking it out keeps the runs (`Builder.Cut`).  Pruning
takes out one after another and compacts the blocks at the end: it succeeds,
keeps the runs, and leaves each block what it was without some pure
instructions (`Builder.Prunable.prune`), if pure instructions have no blocks as
operands.  What it takes out leaves the sets of instructions that support
themselves as they are (`Builder.Takes`), and it stops where nothing is dead.
-/

namespace Shading

open List Option

variable {block : Block} {id tgt : ObjectId} {slot : Nat} {kind : ObjectKind} {ir later mid : Builder}
  {inst : InstId} {order held lost : List ObjectId}

namespace Builder

/-- The account is right, the blocks are listed, a block with an empty slot is
marked, and only jumps and stores name blocks. -/
structure Prunable (ir : Builder) (held lost order : List ObjectId) : Prop where
  sound : ir.Sound held [] [] lost
  ordered : ir.Ordered order
  marked : ir.Marked
  operands : ∀ inst instr, ir.instruction? inst = some instr → instr.opcode.code.isPure = true →
    ∀ id ∈ instr.operands, ir.block? id = none

/-! ## Thinner code -/

/-- No block has an empty slot. -/
def Compact (ir : Builder) : Prop := ∀ id block, ir.block? id = some block → none ∉ block.slots

/-- The live instructions of a block. -/
def code? (ir : Builder) (id : ObjectId) : Option (List Instruction) :=
  (ir.block? id).map fun block => block.instructions.filterMap ir.instruction?

lemma resolve?_eq_some {slots : List (Option InstId)} (hfull : none ∉ slots)
    (hlive : ∀ inst, some inst ∈ slots → (ir.instruction? inst).isSome = true) :
    ir.resolve? slots = some ((slots.filterMap fun slot => slot).filterMap ir.instruction?) := by
  induction slots with
  | nil => rfl
  | cons slot rest ih =>
    obtain ⟨hne, hrest⟩ := not_or.mp (fun hm => hfull (mem_cons.mpr hm))
    obtain ⟨inst, rfl⟩ := ne_none_iff_exists'.mp (Ne.symm hne)
    obtain ⟨instr, hi⟩ := isSome_iff_exists.mp (hlive inst (.head _))
    rw [resolve?_cons, bind_some, hi, ih hrest fun inst hm => hlive inst (.tail _ hm)]
    simp [hi]

/-- In compact blocks all code is listed. -/
lemma Compact.listing? (h : ir.Compact) (hs : ir.Sound [] [] [] []) (id : ObjectId) :
    ir.listing? id = ir.code? id := by
  rw [Builder.listing?, code?]
  cases hb : ir.block? id with
  | none => rfl
  | some block =>
    obtain ⟨refs, ho⟩ := object?_of_block? hb
    refine resolve?_eq_some (h id block hb) fun inst hm => ?_
    exact (hs.nodup_placed ho).1 inst (mem_filterMap.mpr ⟨some inst, hm, rfl⟩)

lemma not_mem_of_resolve? {slots : List (Option InstId)} {code : List Instruction}
    (h : ir.resolve? slots = some code) : none ∉ slots := by
  induction slots generalizing code with
  | nil => exact not_mem_nil
  | cons slot rest ih =>
    rw [resolve?_cons] at h
    obtain ⟨first, hfirst, h⟩ := bind_eq_some_iff.mp h
    obtain ⟨others, hothers, -⟩ := map_eq_some_iff.mp h
    obtain ⟨inst, rfl, -⟩ := bind_eq_some_iff.mp hfirst
    rw [mem_cons, not_or]
    exact ⟨some_ne_none inst ∘ Eq.symm, ih hothers⟩

end Builder

/-- The code without some pure instructions. -/
inductive Code.Thins : List Instruction → List Instruction → Prop where
  | nil : Thins [] []
  | keep {code rest} (instr : Instruction) (h : Thins code rest) :
    Thins (instr :: code) (instr :: rest)
  | drop {code rest instr} (hpure : instr.opcode.code.isPure = true)
    (h : Thins code rest) : Thins (instr :: code) rest

lemma Code.Thins.subset {code rest : List Instruction} (h : Thins code rest) : rest ⊆ code := by
  induction h with
  | nil => exact List.Subset.refl _
  | keep instr _ ih => exact cons_subset_cons instr ih
  | drop _ _ ih => exact subset_cons_of_subset _ ih

namespace Builder

lemma KeepsKinds.trans (h : ir.KeepsKinds mid) (h' : mid.KeepsKinds later) : ir.KeepsKinds later := by
  intro id kind hk
  rcases h' id kind hk with hsame | ⟨hblk, block, hmiddle⟩
  · exact h id kind hsame
  · rcases h id _ hmiddle with hold | ⟨-, hold⟩
    · exact .inr ⟨hblk, block, hold⟩
    · exact .inr ⟨hblk, hold⟩

/-- Addresses that are left are what they were. -/
lemma KeepsKinds.memory_iff {opd : MemoryOperand} (h : ir.KeepsKinds later)
    (hk : later.kind? id = some kind) : kind = .memory opd ↔ ir.kind? id = some (.memory opd) := by
  rcases h id kind hk with hsame | ⟨⟨block, rfl⟩, block', hold⟩
  · rw [hsame, some.injEq]
  · rw [hold]
    exact ⟨nofun, nofun⟩

/-- Pure instructions were taken out of blocks. -/
structure Thins (ir later : Builder) : Prop where
  code : ∀ id code, ir.code? id = some code → ∃ rest, later.code? id = some rest ∧ Code.Thins code rest
  entry : later.entryBlock? = ir.entryBlock?
  slots : later.dataSlots = ir.dataSlots
  kinds : ir.KeepsKinds later

/-- Some instructions are gone, and no set that supports itself is affected. -/
structure Takes (ir : Builder) (held : List ObjectId) (gone : List InstId) (later : Builder) : Prop where
  pure : ∀ inst ∈ gone, ∃ instr, ir.instruction? inst = some instr ∧ instr.opcode.code.isPure = true
  count : gone.length + later.instructions.live = ir.instructions.live
  instruction : ∀ inst, later.instruction? inst = if inst ∈ gone then none else ir.instruction? inst
  block : ∀ id, (later.block? id).map (·.instructions) = (ir.block? id).map fun block =>
    block.instructions.filter (· ∉ gone)
  selfSupporting : ∀ set, later.SelfSupporting held set ↔ ir.SelfSupporting held set

lemma Takes.refl (ir : Builder) (held : List ObjectId) : ir.Takes held [] ir :=
  ⟨forall_mem_nil _, Nat.zero_add _, fun _ => rfl, fun _ => by simp, fun _ => Iff.rfl⟩

lemma Takes.trans {gone gone' : List InstId} (h : ir.Takes held gone mid) (h' : mid.Takes held gone' later) :
    ir.Takes held (gone ++ gone') later where
  pure inst hm := by
    refine (mem_append.mp hm).elim (h.pure inst) fun hm => ?_
    obtain ⟨instr, hi, hpure⟩ := h'.pure inst hm
    have hmid := h.instruction inst
    split at hmid
    · cases hmid.symm.trans hi
    · exact ⟨instr, hmid.symm.trans hi, hpure⟩
  count := by
    have hfirst := h.count
    have hsecond := h'.count
    rw [length_append]
    omega
  instruction inst := by
    rw [h'.instruction, h.instruction]
    by_cases hm : inst ∈ gone <;> by_cases hm' : inst ∈ gone' <;> simp [hm, hm']
  block id := by
    have hfilter (list : List InstId) : (list.filter (· ∉ gone)).filter (· ∉ gone') =
        list.filter (· ∉ gone ++ gone') := by
      rw [List.filter_filter]
      exact filter_congr fun inst _ => by simp [Bool.and_comm]
    have hmap : (mid.block? id).map (fun block => block.instructions.filter (· ∉ gone')) =
        ((mid.block? id).map (·.instructions)).map (·.filter (· ∉ gone')) := (Option.map_map ..).symm
    rw [h'.block, hmap, h.block, Option.map_map]
    exact congrArg (Option.map · _) (funext fun block => hfilter block.instructions)
  selfSupporting set := (h'.selfSupporting set).trans (h.selfSupporting set)

/-- Code without what was taken out. -/
lemma Takes.code {gone : List InstId} {code : List Instruction} (h : ir.Takes held gone later)
    (hc : ir.code? id = some code) : ∃ rest, later.code? id = some rest ∧ Code.Thins code rest := by
  have hfilter (list : List InstId) :
      Code.Thins (list.filterMap ir.instruction?) ((list.filter (· ∉ gone)).filterMap later.instruction?) := by
    induction list with
    | nil => exact .nil
    | cons inst rest ih =>
      by_cases hm : inst ∈ gone
      · obtain ⟨instr, hi, hpure⟩ := h.pure inst hm
        rw [filter_cons_of_neg (by simpa using hm), filterMap_cons, hi]
        exact .drop hpure ih
      · rw [filter_cons_of_pos (by simpa using hm), filterMap_cons, filterMap_cons, h.instruction, if_neg hm]
        cases ir.instruction? inst with
        | none => exact ih
        | some instr => exact .keep instr ih
  obtain ⟨block, hb, rfl⟩ := map_eq_some_iff.mp hc
  have hblk := h.block id
  rw [hb, map_some] at hblk
  obtain ⟨block', hb', heq⟩ := Option.map_eq_some_iff.mp hblk
  refine ⟨_, congrArg (Option.map _) hb', ?_⟩
  dsimp only
  rw [heq]
  exact hfilter block.instructions

/-- The same runs, and so many instructions fewer. -/
structure Reduces (ir : Builder) (held : List ObjectId) (removed : Nat) (later : Builder) : Prop where
  runs : ir.SameRuns later
  entry : later.entryBlock? = ir.entryBlock?
  slots : later.dataSlots = ir.dataSlots
  kinds : ir.KeepsKinds later
  takes : ∃ gone : List InstId, gone.length = removed ∧ ir.Takes held gone later

lemma Reduces.refl (ir : Builder) (held : List ObjectId) : ir.Reduces held 0 ir :=
  ⟨.refl ir, rfl, rfl, fun _ _ hk => .inl hk, [], rfl, .refl ir held⟩

lemma Reduces.trans {m n : Nat} (h : ir.Reduces held m mid) (h' : mid.Reduces held n later) :
    ir.Reduces held (m + n) later := by
  obtain ⟨gone, hlen, htakes⟩ := h.takes
  obtain ⟨gone', hlength', htakes'⟩ := h'.takes
  exact ⟨h.runs.trans h'.runs, h'.entry.trans h.entry, h'.slots.trans h.slots, h.kinds.trans h'.kinds,
    gone ++ gone', by rw [length_append, hlen, hlength'], htakes.trans htakes'⟩

lemma Reduces.thins {n : Nat} (h : ir.Reduces held n later) : ir.Thins later := by
  obtain ⟨gone, -, htakes⟩ := h.takes
  exact ⟨fun _ _ => htakes.code, h.entry, h.slots, h.kinds⟩

/-! ## Dead instructions -/

/-- An instruction stands in one block. -/
lemma Sound.block_unique {a b : ObjectId} {block' : Block} (h : ir.Sound held [] [] lost)
    (ha : ir.block? a = some block)
    (hb : ir.block? b = some block') (hm : inst ∈ block.instructions) (hm' : inst ∈ block'.instructions) :
    a = b := by
  by_contra hne
  obtain ⟨refs, ho⟩ := object?_of_block? ha
  obtain ⟨refs', ho'⟩ := object?_of_block? hb
  have hperm := (Arena.collect_cons (f := fun obj : Object => obj.kind.placed) ho not_mem_nil).count_eq inst
  have hplaced := h.placed inst
  have hfirst : 0 < block.instructions.count inst := count_pos_iff.mpr hm
  have hsecond : 0 < (ir.objects.collect (fun obj : Object => obj.kind.placed) [a]).count inst := by
    refine count_pos_iff.mpr (mem_flatMap.mpr ⟨(b, _), Arena.mem_entries.mpr ho', ?_⟩)
    rw [if_neg (by simpa using Ne.symm hne)]
    exact hm'
  rw [count_append] at hperm
  rw [placements, hperm, count_nil] at hplaced
  have hsame : (ObjectKind.block block).placed = block.instructions := rfl
  dsimp only at hplaced
  rw [hsame] at hplaced
  split at hplaced <;> omega

end Builder

namespace Build

open Builder

variable {gone : List ObjectId}

/-! ## Removing an instruction without blocks as operands -/

/-- The builder with an empty slot, before anything is released. -/
def cleared (ir : Builder) (target : ObjectId) (block : Block) (slot : Nat) : Builder :=
  ir.setBlock target { block with slots := block.slots.set slot none, requiresFixup := true }

/-- The slot is cleared and the operands go, if nothing else names them. -/
lemma removeInst_gives {instr : Instruction} (h : ir.Sound held [] [] gone) (hb : ir.block? tgt = some block)
    (hslot : block.slots[slot]? = some (some inst))
    (hi : ir.instruction? inst = some instr) (hblocks : ∀ id ∈ instr.operands, ir.block? id = none) :
    Gives (removeInst tgt slot) ir fun _ later => later.Sound held [] [] gone ∧
      ∃ mid, (cleared ir tgt block slot).Kept mid ∧ Releases instr.operands (cleared ir tgt block slot) mid ∧
        later = { mid with instructions := ir.instructions.erase inst } := by
  unfold removeInst
  refine .step (block_run hb) ?_
  rw [hslot]
  refine .step (modifyBlock_run hb _) ?_
  change Gives (deleteInst inst) (cleared ir tgt block slot) _
  have hi' : (cleared ir tgt block slot).instruction? inst = some instr := hi
  have hblocks' : ∀ id ∈ instr.operands, (cleared ir tgt block slot).block? id = none := by
    intro id hm
    rw [cleared, block?_setBlock hb, if_neg]
    · exact hblocks id hm
    · rintro rfl
      rw [hblocks _ hm] at hb
      cases hb
  unfold deleteInst deleteInstWith
  refine .step rfl ?_
  rw [hi']
  refine .bind (releaseOperands_gives (h.unplace hi hb hslot true) hblocks') ?_
  rintro - mid ⟨hs, hkept, hreleases⟩
  have hinst : mid.instruction? inst = some instr := by
    rw [instruction?, hkept.instructions]
    exact hi'
  refine .of_run rfl ⟨(hkept.sound hs).freeInst hinst, mid, hkept, hreleases, ?_⟩
  dsimp only
  rw [hkept.instructions]
  rfl

end Build

/-- An empty slot in place of an instruction that stood there only. -/
lemma Block.instructions_clear (hnodup : block.instructions.Nodup)
    (hslot : block.slots[slot]? = some (some inst)) : (block.slots.set slot none).filterMap (fun slot => slot) =
      block.instructions.filter (· ∉ [inst]) := by
  obtain ⟨before, after, hold, hnew⟩ := block.instructions_split hslot
  rw [hold] at hnodup
  rw [hnew, hold, filter_append, filter_cons_of_neg (by simp), ← filter_append, filter_eq_self.mpr]
  intro other hm
  have hne : other ≠ inst := fun heq => (nodup_middle.mp hnodup).notMem (heq ▸ hm)
  simpa using hne

namespace Builder

open Build

/-- Objects other than the block are what they were. -/
lemma kind?_of_cleared (hkept : (cleared ir tgt block slot).Kept mid)
    (heq : later = { mid with instructions := ir.instructions.erase inst })
    (hne : id ≠ tgt) (hk : later.kind? id = some kind) : ir.kind? id = some kind := by
  obtain ⟨refs, hl⟩ := object?_eq_of_kind? hk
  subst heq
  obtain ⟨refs', hc⟩ := hkept.objects id _ hl
  have hsame : (cleared ir tgt block slot).object? id = ir.object? id := Arena.get?_modify_of_ne _ hne
  exact kind?_of_object? (hsame.symm.trans hc)

/-- A builder without dead instructions is a cut of the builder with them. -/
lemma Weeds.cut {gone : List InstId} (h : ir.Weeds held lost gone later)
    (hentry : later.entryBlock? = ir.entryBlock?) (hblk : ∀ id, (later.block? id).map (·.instructions) =
      (ir.block? id).map fun block => block.instructions.filter (· ∉ gone)) : ∃ hidden,
      ir.Cut gone hidden later := by
  have hinst (inst : InstId) (hm : inst ∉ gone) : later.instruction? inst = ir.instruction? inst :=
    (h.instruction inst).trans (if_neg hm)
  -- The registers that they write are hidden.
  have hhidden {id : ObjectId} (hm : id ∈ gone.filterMap fun inst =>
    (ir.instruction? inst).bind (·.operands.head?)) :
      (∀ other, other ∉ gone → ¬ir.Uses other id) ∧ ∀ other kind, ir.kind? other = some kind →
      id ∉ kind.names := by
    obtain ⟨inst, hg, hhead⟩ := mem_filterMap.mp hm
    obtain ⟨opcode, tgt, others, reg, hi, -, ho⟩ := isDead_iff.mp (h.dead inst hg)
    rw [hi] at hhead
    obtain rfl := some.inj hhead
    obtain ⟨hothers, hnames, -⟩ := h.before.unnamed hi ho
    exact ⟨fun other hout => hothers other fun heq => hout (heq ▸ hg), hnames⟩
  refine ⟨_, fun inst hm => ?_, hinst, hblk, hentry, fun inst instr hm hi id hopd =>
    ⟨fun hid => (hhidden hid).1 inst hm ⟨instr, hi, hopd⟩, ?_, fun opd hk =>
      ⟨fun hid => (hhidden hid).2 id _ hk (.head _), fun index hindex hid =>
        (hhidden hid).2 id _ hk (.tail _ (mem_toList.mpr hindex))⟩⟩⟩
  · obtain ⟨opcode, tgt, others, reg, hi, hpure, ho⟩ := isDead_iff.mp (h.dead inst hm)
    exact ⟨opcode, tgt, others, hi, hpure, mem_filterMap.mpr ⟨inst, hm, by rw [hi]; rfl⟩, reg,
      kind?_of_object? ho⟩
  · cases hk : later.kind? id with
    | some kind =>
      rcases h.kinds id kind hk with hsame | ⟨⟨block, rfl⟩, hold⟩
      · exact .inr hsame.symm
      · exact .inl ⟨hold, block, rfl⟩
    | none =>
      right
      cases hold : ir.kind? id with
      | none => rfl
      | some kind =>
        cases hb : kind.block? with
        | none =>
          cases hk.symm.trans (h.before.kind?_of_named h.after h.kinds
            (.inl ⟨inst, instr, (hinst inst hm).trans hi, hopd⟩) hold hb)
        | some block =>
          have hmap := hblk id
          simp [block?, hk, hold, hb] at hmap

lemma Sound.instructions_clear (h : ir.Sound held [] [] lost) (hb : ir.block? tgt = some block)
    (hslot : block.slots[slot]? = some (some inst)) (hblk : ∀ id, later.block? id = if id = tgt then
      some { block with slots := block.slots.set slot none, requiresFixup := true } else ir.block? id) (id :
        ObjectId) :
    (later.block? id).map (·.instructions) = (ir.block? id).map fun block =>
    block.instructions.filter (· ∉ [inst]) := by
  obtain ⟨refs, ho⟩ := object?_of_block? hb
  rw [hblk]
  split
  · rename_i hid
    rw [hid, hb, map_some, map_some]
    have hnodup : block.instructions.Nodup := by
      have hall := (h.nodup_placed ho).2
      rwa [append_nil] at hall
    exact congrArg some (Block.instructions_clear hnodup hslot)
  · rename_i hid
    cases hk : ir.block? id with
    | none => rfl
    | some other =>
      rw [map_some, map_some, filter_eq_self.mpr]
      intro candidate hm
      have hne : candidate ≠ inst := by
        rintro rfl
        refine hid (h.block_unique hk hb hm ?_)
        exact mem_filterMap.mpr ⟨some candidate, mem_of_getElem? hslot, rfl⟩
      simpa using hne

/-- A builder without a dead instruction is rid of it and of what only it used. -/
lemma Sound.weeds {instr : Instruction} (h : ir.Sound held [] [] lost)
    (hdead : ir.isDead inst = true) (hi : ir.instruction? inst = some instr) (hb : ir.block? tgt = some block)
    (hlater : later.Sound held [] [] lost)
    (hkinds : ir.KeepsKinds later) (hroots : later.rootNames = ir.rootNames)
    (hreleases : Releases instr.operands (cleared ir tgt block slot) mid)
    (heq : later = { mid with instructions := ir.instructions.erase inst }) : ir.Weeds held lost [inst] later := by
  have hself (id : ObjectId) (huses : ∃ other ∈ [inst], ir.Uses other id) : id ∈ instr.operands := by
    obtain ⟨other, hm, instr', hi', hopd⟩ := huses
    obtain rfl := mem_singleton.mp hm
    obtain rfl := some.inj (hi.symm.trans hi')
    exact hopd
  have hmemory (id : ObjectId) (opd : MemoryOperand) (hk : ir.kind? id = some (.memory opd)) :
      later.object? id = ir.object? id ∨ id ∈ instr.operands ∧ later.refs? id ≠ some 0 := by
    have hne : id ≠ tgt := by
      rintro rfl
      cases hk.symm.trans (kind?_of_block? hb)
    have hsame : (cleared ir tgt block slot).object? id = ir.object? id := Arena.get?_modify_of_ne _ hne
    rw [← hsame, heq]
    exact hreleases id opd ((congrArg (Option.map _) hsame).trans hk)
  refine ⟨h, hlater, hkinds, hroots, fun other hm => ?_, fun other => ?_,
    fun id opd hk => ?_, fun id hused opd hk => ?_⟩
  · rw [mem_singleton.mp hm]
    exact hdead
  · rw [heq]
    split
    · rename_i hm
      rw [mem_singleton.mp hm]
      exact Arena.get?_erase_self hi
    · rename_i hm
      exact Arena.get?_erase_of_ne hi (by simpa using hm)
  · rcases hmemory id opd hk with hsame | ⟨hm, -⟩
    · exact .inl ((congrArg (Option.map _) hsame).trans hk)
    · exact .inr ⟨inst, mem_singleton_self _, instr, hi, hm⟩
  · have hold : ir.kind? id = some (.memory opd) := (hkinds.memory_iff hk).mp rfl
    rcases hmemory id opd hold with hsame | ⟨-, hrefs⟩
    · obtain ⟨refs, ho⟩ := object?_eq_of_kind? hold
      have hpos : 0 < ir.nameCount [] [] id + held.count id :=
        nameCount_pos_iff.mpr (.inl ⟨inst, not_mem_nil, instr, hi, hself id hused⟩)
      have hrefs := h.refs id _ ho
      rw [refs?, hsame, ho, map_some, Ne, some.injEq]
      dsimp only at hrefs ⊢
      omega
    · exact hrefs

namespace Prunable

lemma removeInst (h : ir.Prunable held lost order) (hdead : ir.isDead inst = true)
    (hb : ir.block? tgt = some block) (hslot : block.slots[slot]? = some (some inst)) :
    Gives (removeInst tgt slot) ir fun _ later => later.Prunable held lost order ∧ ir.Reduces held 1 later ∧
      later.block? tgt = some { block with slots := block.slots.set slot none, requiresFixup := true } := by
  obtain ⟨opcode, hidden, others, reg, hi, hpure, ho⟩ := isDead_iff.mp hdead
  refine (removeInst_gives h.sound hb hslot hi (h.operands inst _ hi hpure)).mono ?_
  rintro - later ⟨hs, mid, hkept, hreleases, heq⟩
  have hblk (id : ObjectId) : later.block? id = if id = tgt then
      some { block with slots := block.slots.set slot none, requiresFixup := true } else ir.block? id := by
    subst heq
    exact (hkept.block id).trans (block?_setBlock hb _ id)
  have hkinds : ir.KeepsKinds later := by
    intro id kind hk
    by_cases hid : id = tgt
    · have hself := kind?_of_block? ((hblk id).trans (if_pos hid))
      exact .inr ⟨⟨_, some.inj (hk.symm.trans hself)⟩, block, hid ▸ kind?_of_block? hb⟩
    · exact .inl (kind?_of_cleared hkept heq hid hk)
  have hentry : later.entryBlock? = ir.entryBlock? := by rw [heq]; exact hkept.entry
  have hslots : later.dataSlots = ir.dataSlots := by rw [heq]; exact hkept.slots
  have hweeds := h.sound.weeds hdead hi hb hs hkinds (by rw [rootNames, hslots, hentry, rootNames]) hreleases heq
  obtain ⟨hidden, hcut⟩ := hweeds.cut hentry (h.sound.instructions_clear hb hslot hblk)
  have htakes : ir.Takes held [inst] later := by
    refine ⟨fun other hm => ?_, ?_, hweeds.instruction, hcut.block, fun _ => hweeds.selfSupporting_iff⟩
    · rw [mem_singleton.mp hm]
      exact ⟨_, hi, hpure⟩
    · have hpos := Arena.live_pos h.sound.instructions hi
      have hlive : (ir.instructions.erase inst).live = ir.instructions.live - 1 := Arena.live_erase hi
      rw [heq, length_singleton]
      dsimp only
      omega
  refine ⟨⟨hs, ?_, fun id other hother hclean => ?_, fun other instr hother hpure' id hm => ?_⟩,
    ⟨hcut.sameRuns, hentry, hslots, hkinds, [inst], rfl, htakes⟩, (hblk tgt).trans (if_pos rfl)⟩
  · refine h.ordered.congr (fun id => ?_) ?_ ?_
    · rw [links?, hblk, links?]
      split
      · rename_i hid
        rw [hid, hb]
        rfl
      · rfl
    · subst heq
      exact hkept.first
    · subst heq
      exact hkept.last
  · rw [hblk] at hother
    split at hother
    · cases hother
      cases hclean
    · exact h.marked id other hother hclean
  · have hne : other ∉ [inst] := by
      rw [mem_singleton]
      rintro rfl
      subst heq
      have hnone : (ir.instructions.erase other).get? other = none := Arena.get?_erase_self hi
      cases hnone.symm.trans hother
    have hnone := h.operands other instr ((hcut.instruction other hne).symm.trans hother) hpure' id hm
    rw [hblk, if_neg, hnone]
    rintro rfl
    rw [hb] at hnone
    cases hnone

/-- Pruning a slot that holds what it is thought to hold. -/
lemma pruneSlot {inst? : Option InstId} (h : ir.Prunable held lost order)
    (hb : ir.block? tgt = some block) (hslot : block.slots[slot]? = some inst?) :
    Gives (pruneSlot tgt slot inst?) ir fun removed later => later.Prunable held lost order ∧
      ir.Reduces held removed later ∧
      ∃ block', later.block? tgt = some block' ∧ ∀ other, other ≠ slot →
      block'.slots[other]? = block.slots[other]? := by
  have hstay : ir.Prunable held lost order ∧ ir.Reduces held 0 ir ∧
      ∃ block', ir.block? tgt = some block' ∧ ∀ other, other ≠ slot →
      block'.slots[other]? = block.slots[other]? :=
    ⟨h, .refl ir held, block, hb, fun _ _ => rfl⟩
  cases inst? with
  | none => exact .pure hstay
  | some inst =>
    unfold Build.pruneSlot
    refine .step rfl ?_
    split
    · rename_i hdead
      refine (h.removeInst hdead hb hslot).bind ?_
      rintro - later ⟨hlater, hred, hb'⟩
      exact .pure ⟨hlater, hred, _, hb', fun other hne => getElem?_set_ne (Ne.symm hne)⟩
    · exact .pure hstay

/-- One after another, where `inv` says what holds before the rest. -/
lemma sumM_gives {α : Type} {f : α → Build Nat} (inv : Nat → List α → Builder → Prop)
    (hstep : ∀ n a rest ir, inv n (a :: rest) ir → Gives (f a) ir fun removed later =>
      inv (n + removed) rest later) {list : List α}
    {n : Nat} (h : inv n list ir) : Gives (sumM f list) ir fun removed later => inv (n + removed) [] later := by
  induction list generalizing ir n with
  | nil => exact .pure h
  | cons a rest ih =>
    rw [sumM]
    refine (hstep n a rest ir h).bind fun first mid hmid => (ih hmid).bind fun others later hlater => .pure ?_
    rwa [← Nat.add_assoc]

/-- If nothing was removed, nothing was changed. -/
lemma sumM_zero {α : Type} {f : α → Build Nat} {P : α → Prop} {list : List α}
    (hf : ∀ a ∈ list, ∀ later, (f a).run.run ir = (.ok 0, later) → later = ir ∧ P a)
    (h : (sumM f list).run.run ir = (.ok 0, later)) : later = ir ∧ ∀ a ∈ list, P a := by
  induction list generalizing later with
  | nil =>
    cases h
    exact ⟨rfl, forall_mem_nil _⟩
  | cons a rest ih =>
    obtain ⟨first, mid, hfirst, h⟩ := ExceptT.run_bind_ok h
    obtain ⟨others, last, hothers, h⟩ := ExceptT.run_bind_ok h
    obtain ⟨hsum, rfl⟩ := ExceptT.run_pure_ok h
    obtain ⟨rfl, rfl⟩ : first = 0 ∧ others = 0 := by omega
    obtain ⟨rfl, ha⟩ := hf a (.head _) mid hfirst
    obtain ⟨hlast, hrest⟩ := ih (forall_mem_cons.mp hf).2 hothers
    exact ⟨hlast, forall_mem_cons.mpr ⟨ha, hrest⟩⟩

lemma pruneSlot_zero {inst? : Option InstId} (h : (Build.pruneSlot tgt slot inst?).run.run ir = (.ok 0, later)) :
    later = ir ∧ ∀ inst ∈ inst?, ir.isDead inst = false := by
  cases inst? with
  | none =>
    cases h
    exact ⟨rfl, nofun⟩
  | some inst =>
    replace h := ExceptT.run_get_bind_ok h
    split at h
    · obtain ⟨_, mid, -, h⟩ := ExceptT.run_bind_ok h
      cases h
    · rename_i halive
      cases h
      refine ⟨rfl, fun other hm => ?_⟩
      rw [← some.inj hm]
      exact Bool.eq_false_iff.mpr halive

lemma pruneBlock_zero (h : (Build.pruneBlock tgt).run.run ir = (.ok 0, later)) : later = ir ∧
    ∀ block, ir.block? tgt = some block → ∀ inst ∈ block.instructions, ir.isDead inst = false := by
  replace h := ExceptT.run_get_bind_ok h
  cases hb : ir.block? tgt with
  | none =>
    rw [hb] at h
    cases h
    exact ⟨rfl, nofun⟩
  | some block =>
    rw [hb] at h
    obtain ⟨hlater, hslots⟩ := sumM_zero (P := fun entry => ∀ inst ∈ entry.1, ir.isDead inst = false)
      (fun entry _ later hrun => pruneSlot_zero hrun) h
    refine ⟨hlater, fun block' hb' inst hm => ?_⟩
    obtain rfl := some.inj hb'
    obtain ⟨_, hslot, rfl⟩ := mem_filterMap.mp hm
    obtain ⟨slot, hget⟩ := getElem?_of_mem hslot
    exact hslots (some inst, slot) (mem_reverse.mpr (mem_zipIdx_iff_getElem?.mpr hget)) inst rfl

section

variable (h : ir.Prunable held lost order)
include h

/-- Pruning a block: the slots that are still to come are as they were. -/
lemma pruneBlock (tgt : ObjectId) : Gives (pruneBlock tgt) ir fun removed later =>
    later.Prunable held lost order ∧ ir.Reduces held removed later := by
  unfold Build.pruneBlock
  refine .step rfl ?_
  cases hb : ir.block? tgt with
  | none => exact .pure ⟨h, .refl ir held⟩
  | some block =>
    let inv (n : Nat) (rest : List (Option InstId × Nat)) (later : Builder) : Prop :=
      (later.Prunable held lost order ∧ ir.Reduces held n later) ∧ (rest.map Prod.snd).Nodup ∧
        ∃ block, later.block? tgt = some block ∧ ∀ entry ∈ rest, block.slots[entry.2]? = some entry.1
    have hstep (n : Nat) (entry : Option InstId × Nat) (rest : List (Option InstId × Nat)) (mid : Builder)
        (hinv : inv n (entry :: rest) mid) :
        Gives (Build.pruneSlot tgt entry.2 entry.1) mid fun removed later => inv (n + removed) rest later := by
      obtain ⟨⟨hmid, hred⟩, hnodup, block, hb, hslots⟩ := hinv
      rw [map_cons, nodup_cons] at hnodup
      refine (hmid.pruneSlot hb (hslots entry (.head _))).mono ?_
      rintro removed later ⟨hlater, hreduces', block', hb', hothers⟩
      refine ⟨⟨hlater, hred.trans hreduces'⟩, hnodup.2, block', hb', fun other hm => ?_⟩
      rw [hothers other.2 fun heq => hnodup.1 (heq ▸ mem_map_of_mem hm)]
      exact hslots other (.tail _ hm)
    have hfirst : inv 0 block.slots.zipIdx.reverse ir := by
      refine ⟨⟨h, .refl ir held⟩, ?_, block, hb, fun entry hm => ?_⟩
      · rw [map_reverse, nodup_reverse, zipIdx_map_snd]
        exact nodup_range'
      · exact mem_zipIdx_iff_getElem?.mp (mem_reverse.mp hm)
    refine (sumM_gives inv hstep hfirst).mono fun removed later hinv => ?_
    rw [Nat.zero_add] at hinv
    exact hinv.1

/-- A live instruction stands in a listed block. -/
lemma pruneBlocks_zero (hrun : Build.pruneBlocks.run.run ir = (.ok 0, later)) : later = ir ∧ ∀ inst,
    ir.isDead inst = false := by
  replace hrun := ExceptT.run_get_bind_ok hrun
  rw [h.ordered.blocks_eq h.sound.objects] at hrun
  obtain ⟨hlater, hblocks⟩ := sumM_zero (fun id _ later => pruneBlock_zero) hrun
  refine ⟨hlater, fun inst => Bool.eq_false_iff.mpr fun hdead => ?_⟩
  obtain ⟨opcode, tgt, others, reg, hi, -, -⟩ := isDead_iff.mp hdead
  have hplaced := h.sound.placed inst
  rw [if_pos (Arena.contains_iff.mpr ⟨_, hi⟩), count_nil, Nat.add_zero] at hplaced
  have hmem : inst ∈ ir.placements := count_pos_iff.mp (by omega)
  rw [placements, Arena.collect_nil] at hmem
  obtain ⟨⟨id, kind, refs⟩, he, hm⟩ := mem_flatMap.mp hmem
  cases kind with
  | block block =>
    have hb := block?_of_kind? (kind?_of_object? (Arena.mem_entries.mp he))
    rw [hblocks id (h.ordered.complete id block hb) block hb inst hm] at hdead
    cases hdead
  | _ => cases hm

lemma pruneBlocks : Gives Build.pruneBlocks ir fun removed later => later.Prunable held lost order ∧
    ir.Reduces held removed later := by
  unfold Build.pruneBlocks
  refine .step rfl ?_
  refine (sumM_gives (fun n _ later => later.Prunable held lost order ∧ ir.Reduces held n later) ?_ ⟨h,
    .refl ir held⟩).mono ?_
  · rintro n tgt rest mid ⟨hmid, hred⟩
    refine (hmid.pruneBlock tgt).mono ?_
    rintro removed later ⟨hlater, hreduces'⟩
    exact ⟨hlater, hred.trans hreduces'⟩
  · intro removed later hlater
    rwa [Nat.zero_add] at hlater

/-- Each round but the last removes something. -/
lemma pruneUpTo (bound : Nat) : Gives (pruneUpTo bound) ir fun removed later => later.Prunable held lost order ∧
    ir.Reduces held removed later ∧ (ir.instructions.live < bound → ∀ inst, later.isDead inst = false) := by
  induction bound generalizing ir with
  | zero => exact .pure ⟨h, .refl ir held, fun hlt => absurd hlt (Nat.not_lt_zero _)⟩
  | succ bound ih =>
    obtain ⟨removed, mid, hrun, hmid, hred⟩ := h.pruneBlocks
    rw [Build.pruneUpTo]
    refine .step hrun ?_
    split
    · rename_i hzero
      subst hzero
      obtain ⟨rfl, hquiet⟩ := h.pruneBlocks_zero hrun
      exact .pure ⟨h, hred, fun _ => hquiet⟩
    · rename_i hpos
      refine (ih hmid).bind fun others later hlater => .pure ⟨hlater.1, hred.trans hlater.2.1, fun hlt =>
        hlater.2.2 ?_⟩
      obtain ⟨gone, hlen, htakes⟩ := hred.takes
      have hcount := htakes.count
      omega

lemma fixupBlocks : Gives fixupBlocks ir fun _ later => later.Prunable held lost order ∧
    ir.Reduces held 0 later ∧ later.Compact := by
  refine (fixupBlocks_gives h.sound h.ordered).mono ?_
  rintro - _ ⟨rfl, hs, horder⟩
  have hblk (id : ObjectId) : (ir.compacted.block? id).map (·.instructions) =
      (ir.block? id).map (·.instructions) := by
    rw [block?_compacted, Option.map_map]
    exact congrArg (fun f => (ir.block? id).map f) (funext Block.instructions_fixup)
  have hkinds : ir.KeepsKinds ir.compacted := by
    intro id kind hk
    rw [kind?_compacted] at hk
    obtain ⟨old, hold, rfl⟩ := map_eq_some_iff.mp hk
    cases old with
    | block block => exact .inr ⟨⟨_, rfl⟩, block, hold⟩
    | _ => exact .inl hold
  have hweeds : ir.Weeds held lost [] ir.compacted := by
    refine ⟨h.sound, hs, hkinds, rfl, forall_mem_nil _, fun _ => rfl, fun id opd hk => .inl ?_, fun id hused =>
      absurd hused (by simp)⟩
    rw [kind?_compacted, hk]
    rfl
  obtain ⟨hidden, hcut⟩ := hweeds.cut rfl (by simpa using hblk)
  have htakes : ir.Takes held [] ir.compacted :=
    ⟨forall_mem_nil _, Nat.zero_add _, fun _ => rfl, hcut.block, fun _ => hweeds.selfSupporting_iff⟩
  have hcompact : ir.compacted.Compact := by
    intro id block hb
    rw [block?_compacted] at hb
    obtain ⟨old, hold, rfl⟩ := map_eq_some_iff.mp hb
    exact Block.Marked.fixup (h.marked id old hold) old.requiresFixup_fixup
  refine ⟨⟨hs, horder, fun id block hb _ => hcompact id block hb, fun inst instr hi hpure id hm => ?_⟩,
    ⟨hcut.sameRuns, rfl, rfl, hkinds, [], rfl, htakes⟩, hcompact⟩
  rw [block?_compacted, h.operands inst instr hi hpure id hm]
  rfl

/-- Pruning succeeds, keeps the runs and leaves no empty slot.  What it leaves
supports itself. -/
lemma prune : ∃ removed later, ir.prune = .ok (removed, later) ∧ later.Prunable held lost order ∧
    ir.Reduces held removed later ∧
    later.Compact ∧ later.SelfSupporting held {inst | later.instructions.contains inst = true} := by
  have hgives : Gives Build.prune ir fun removed later => later.Prunable held lost order ∧
    ir.Reduces held removed later ∧
      later.Compact ∧ later.SelfSupporting held {inst | later.instructions.contains inst = true} := by
    unfold Build.prune
    refine .step rfl ((h.pruneUpTo _).bind ?_)
    rintro removed mid ⟨hmid, hred, hquiet⟩
    refine hmid.fixupBlocks.bind ?_
    rintro - later ⟨hlater, hreduces', hcompact⟩
    obtain ⟨gone, hlen, htakes⟩ := hreduces'.takes
    obtain rfl := eq_nil_of_length_eq_zero hlen
    have hset := (htakes.selfSupporting _).mpr (hmid.sound.selfSupporting (hquiet (Nat.lt_succ_self _)))
    have hsame (inst : InstId) : later.instructions.contains inst = mid.instructions.contains inst :=
      congrArg Option.isSome (htakes.instruction inst)
    refine .pure ⟨hlater, hred.trans hreduces', hcompact, ?_⟩
    simpa only [hsame] using hset
  obtain ⟨removed, later, hrun, hlater⟩ := hgives
  refine ⟨removed, later, ?_, hlater⟩
  unfold Builder.prune
  rw [hrun]

end

end Prunable

end Builder

end Shading
