import Shading.Proofs.Ir.BlockList

/-!
# Teardown

Clearing a builder that a caller came to in good order succeeds and leaves
nothing: blocks go one after another, each with what only it held, then the
references to the data slots are dropped, and what is left was never used.
Every object and instruction is freed once (`Arena.Emptied`).
-/

namespace Shading

open List

variable {ir : Builder} {α : Type} {gone held order : List ObjectId} {id : ObjectId} {slots : Nat}
  {lim? : Option Nat} {ledger : Ledger}

/-- All entries are removed, each of them once: its slot moves on by one
generation. -/
structure Arena.Emptied {α : Type} (arena later : Arena α) : Prop where
  stale : ∀ handle, later.get? handle = none
  live : later.live = 0
  stored : later.allocated = arena.allocated
  balanced : later.allocated = later.freed
  once : ∀ (index : Nat) (slot : Slot α), arena.slots[index]? = some slot → ∃ slot',
    later.slots[index]? = some slot' ∧
    slot'.generation = if slot.value?.isSome then slot.generation + 1 else slot.generation

namespace Arena

variable {ar later : Arena α}

/-- Removing whatever there is empties an arena. -/
lemma Fades.emptied (h : ar.Fades later) (hw : ar.WellFormed) (hnone : ∀ handle, later.get? handle = none) :
    ar.Emptied later := by
  have hw' := h.wellFormed hw
  have hentries : later.entries = [] := by
    refine eq_nil_iff_forall_not_mem.mpr fun entry hm => ?_
    have hentry : later.get? entry.1 = some entry.2 := mem_entries.mp hm
    rw [hnone] at hentry
    cases hentry
  have hlive : later.live = 0 := by rw [hw'.live, hentries, length_nil]
  refine ⟨hnone, hlive, h.allocated, by rw [hw'.count, hlive, Nat.add_zero], fun index slot hslot => ?_⟩
  obtain ⟨slot', hslot', hfades⟩ := h.slot index slot hslot
  have hvacant : slot'.value? = none := by
    cases hval : slot'.value? with
    | none => rfl
    | some val =>
      have hget : later.get? ⟨index, slot'.generation⟩ = some val := get?_eq_some.mpr ⟨slot', hslot', rfl, hval⟩
      rw [hnone] at hget
      cases hget
  refine ⟨slot', hslot', ?_⟩
  obtain ⟨hgen, hsome⟩ | ⟨hsome, -, hgen⟩ := hfades
  · rw [← hsome, hvacant]
    exact hgen
  · rw [if_pos hsome, hgen]

end Arena

namespace Build

variable {act : Build α} {post good : α → Builder → Prop} {bad : IrError → Builder → Prop}

lemma Ends.and {good' : α → Builder → Prop} {bad' : IrError → Builder → Prop} (h : Ends act ir good bad)
    (h' : Ends act ir good' bad') :
    Ends act ir (fun a later => good a later ∧ good' a later) fun error later => bad error later ∧
    bad' error later := by
  unfold Ends at h h' ⊢
  split
  · rename_i hrun
    rw [hrun] at h h'
    exact ⟨h, h'⟩
  · rename_i hrun
    rw [hrun] at h h'
    exact ⟨h, h'⟩

lemma Gives.and (h : Gives act ir post) (h' : Ends act ir good bad) :
    Gives act ir fun a later => post a later ∧ good a later := by
  obtain ⟨a, later, hrun, hpost⟩ := h
  exact ⟨a, later, hrun, hpost, h'.ok hrun⟩

end Build

namespace Builder

variable {later : Builder}

/-! ## Data slots -/

/-- The data slots hold live registers. -/
def SlotsLive (ir : Builder) : Prop :=
  ∀ id, some id ∈ ir.dataSlots → ∃ reg, ir.kind? id = some (.register reg)

/-- A register in a data slot was not removed. -/
lemma SlotsLive.not_gone (h : ir.SlotsLive) (hst : ir.Steady held [] gone) (hm : some id ∈ ir.dataSlots) :
    id ∉ gone := by
  intro hgone
  obtain ⟨reg, hr⟩ := h id hm
  have hnone : ir.object? id = none := Arena.get?_of_spent (hst.1.spent id hgone)
  rw [kind?, hnone] at hr
  cases hr

/-- What a data slot refers to stays a register, as long as it is not
removed. -/
lemma SlotsLive.preserved (h : ir.SlotsLive) (hslots : ∀ id, some id ∈ later.dataSlots → some id ∈ ir.dataSlots)
    (hst : later.Steady held [] gone) (hgone : ∀ id, some id ∈ ir.dataSlots → id ∉ gone)
    {made? : Option ObjectId}
    {put taken : List (ObjectId × InstId)} (hbecomes : ir.Becomes made? put taken later) : later.SlotsLive := by
  intro id hm
  have hpos : 0 < later.nameCount [] [] id + held.count id := by
    have hroot : id ∈ later.rootNames := mem_append_left _ (mem_filterMap.mpr ⟨some id, hm, rfl⟩)
    have hcount := count_pos_iff.mpr hroot
    unfold nameCount
    omega
  obtain ⟨obj, ho⟩ := contains_iff.mp ((hst.1.solid id hpos).resolve_right (hgone id (hslots id hm)))
  obtain ⟨reg, hr⟩ := h id (hslots id hm)
  obtain ⟨old, hold, hkeeps⟩ | ⟨-, hnone, -⟩ := hbecomes.kinds id obj.kind (kind?_of_object? ho)
  · obtain rfl : ObjectKind.register reg = old := Option.some.inj (hr.symm.trans hold)
    exact ⟨reg, by rw [kind?_of_object? ho, hkeeps.block?_eq_none rfl]⟩
  · rw [kind?, hnone] at hr
    cases hr

/-- There are as many data slots as were asked for, and as many objects. -/
lemma slots_of_create (h : create slots lim? = .ok ir) : ir.SlotsLive ∧
    ir.dataSlots.length ≤ maxDataSlots ∧ ir.objects.allocated ≤ maxDataSlots := by
  let holds (n : Nat) (ir : Builder) : Prop :=
    ir.Neat [] ∧ ir.SlotsLive ∧ ir.dataSlots.length = n ∧ ir.objects.allocated = n
  have hstep (n : Nat) (ir : Builder) (hir : holds n ir) :
      Build.Ends Build.addSlot ir (fun _ => holds (n + 1)) fun _ _ => True := by
    obtain ⟨hneat, hlive, hlen, halloc⟩ := hir
    have hboth := (Build.allocRegister_advances hneat .general pointerWidth).and
      (Build.allocRegister_stores hneat.wellFormed .general pointerWidth)
    refine .bind (hboth.mono (fun _ _ hgood => hgood) fun _ _ _ => trivial) ?_
    rintro id mid ⟨hadv, hstores⟩
    have hstill := (Build.retain_stilling id mid).ok (Build.retain_run hstores.self)
    have hslots : mid.dataSlots = ir.dataSlots := by rw [hstores.rest]
    refine .of_gives (.step (Build.retain_run hstores.self) (.of_run rfl ⟨?_, fun other hm => ?_, ?_, ?_⟩))
    · have hneat := hstill.neat hadv.neat
      exact ⟨hneat.wellFormed, hneat.ordered.congr (fun _ => rfl) rfl rfl, hneat.entry⟩
    · have hkind : (mid.setObject id fun obj => { obj with refs := obj.refs + 1 }).kind? other =
        mid.kind? other := by
        rw [kind?, object?_setObject hstores.self, kind?]
        split
        · rename_i heq
          rw [heq, hstores.self]
          rfl
        · rfl
      change ∃ reg, (mid.setObject id _).kind? other = _
      rw [hkind, hstores.kind?]
      split
      · exact ⟨_, rfl⟩
      · rename_i hne
        exact hlive other (hslots ▸ (mem_append.mp hm).resolve_right fun hm =>
          hne (Option.some.inj (mem_singleton.mp hm)))
    · change (mid.dataSlots ++ [some id]).length = _
      rw [hslots, length_append, length_singleton, hlen]
    · exact (hstill.fades.objects.allocated.trans hstores.allocated).trans (congrArg (· + 1) halloc)
  obtain ⟨hle, -, hlive, hlen, halloc⟩ := create_induct holds ⟨neat_empty lim?, fun _ hm =>
    absurd hm not_mem_nil, rfl, rfl⟩ hstep h
  exact ⟨hlive, by omega, by omega⟩

/-! ## Builders in good order -/

/-- What clearing a builder relies on. -/
structure Clearable (ir : Builder) (held gone : List ObjectId) : Prop where
  steady : ir.Steady held [] gone
  neat : ∃ order, ir.Neat order
  slots : ir.SlotsLive
  few : ir.dataSlots.length ≤ maxDataSlots
  room : ir.objects.allocated < UInt32.size

/-- A reference to a removed block is only recorded for a block. -/
lemma removed_record {operation : Operation} {res : Except IrError Unit} (h : ir.SlotsLive)
    (hst : ir.Steady ledger.held [] ledger.removed) (hallowed : operation.Allowed ir ledger)
    (hm : some id ∈ ir.dataSlots) : id ∉ (operation.record ledger res).removed := by
  have hnot := h.not_gone hst hm
  cases operation with
  | deleteBlock other =>
    cases res with
    | error error => exact hnot
    | ok _ =>
      obtain ⟨reg, hr⟩ := h id hm
      refine not_mem_cons_of_ne_of_not_mem ?_ hnot
      rintro rfl
      obtain ⟨blk, hblk⟩ := hallowed _ hr
      cases hblk
  | retain other | release other => cases res <;> exact hnot
  | _ => cases res <;> exact hnot

lemma Reached.clearable (h : Reached slots lim? ir ledger) : ir.Clearable ledger.held ledger.removed := by
  induction h with
  | create h =>
    obtain ⟨hlive, hfew, halloc⟩ := slots_of_create h
    exact ⟨(steady_of_create h).1, ⟨[], neat_of_create h⟩, hlive, hfew, Nat.lt_of_le_of_lt halloc (by decide)⟩
  | @step ir ledger operation hreached hroom hallowed ih =>
    obtain ⟨order, hneat⟩ := ih.neat
    obtain ⟨order', hadv, -⟩ := edited_perform hneat (.operation operation)
    have hst := (hreached.step operation hroom hallowed).steady.1
    have hslots : (operation.perform.run.run ir).2.dataSlots = ir.dataSlots := by
      have hends := Build.perform_ends ih.steady hroom hallowed
      cases hrun : operation.perform.run.run ir with
      | mk res later =>
        rw [Build.Ends, hrun] at hends
        cases res <;> exact hends.slots
    obtain ⟨made?, hbecomes⟩ := hadv.becomes
    refine ⟨hst, ⟨order', hadv.neat⟩, ?_, hslots ▸ ih.few, Nat.lt_of_le_of_lt hadv.allocated hroom⟩
    exact ih.slots.preserved (fun id hm => hslots ▸ hm) hst
      (fun id hm => removed_record ih.slots ih.steady hallowed hm) hbecomes

lemma Sound.clearSlot {loose : List InstId} {closing : List ObjectId} {index : Nat}
    (h : ir.Sound held loose closing gone) (hslot : ir.dataSlots[index]? = some (some id)) :
    ({ ir with dataSlots := ir.dataSlots.set index none } : Builder).Sound (id :: held) loose closing gone := by
  obtain ⟨hlt, hget⟩ := List.getElem?_eq_some_iff.mp hslot
  have hsplit : ir.dataSlots = ir.dataSlots.take index ++ some id :: ir.dataSlots.drop (index + 1) := by
    rw [← hget, ← List.drop_eq_getElem_cons hlt, List.take_append_drop]
  have hcount (other : ObjectId) :
      ({ ir with dataSlots := ir.dataSlots.set index none } : Builder).nameCount loose closing other +
        (id :: held).count other = ir.nameCount loose closing other + held.count other := by
    have hroots : ir.rootNames.count other =
        ({ ir with dataSlots := ir.dataSlots.set index none } : Builder).rootNames.count other +
        [id].count other := by
      unfold rootNames
      rw [count_append, count_append, count_slots, count_slots]
      dsimp only
      conv_lhs => rw [hsplit]
      rw [set_eq_take_append_cons_drop, if_pos hlt, count_append, count_append,
        count_cons, count_cons, count_cons, count_nil]
      simp only [beq_iff_eq, Option.some.injEq, reduceCtorEq, if_false]
      omega
    have hcons : (id :: held).count other = [id].count other + held.count other := by
      rw [← count_append, singleton_append]
    rw [nameCount, nameCount, hroots, hcons]
    change (ir.operandNames loose).count other + (ir.memoryNames closing).count other + _ + _ = _
    omega
  exact h.recount rfl rfl (fun other => Nat.le_of_eq (hcount other)) (fun other _ _ => hcount other)
    h.registers h.entry

end Builder

namespace Build

open Builder

/-! ## Clearing -/

section

variable (h : ir.Clearable held gone)
include h

lemma deleteFirst_gives {blk : Block} (hneat : ir.Neat order) (hb : ir.block? id = some blk) :
    Gives (deleteObject id) ir fun _ later => later.Clearable held (id :: gone) ∧ ir.Shed order [] later ∧
      later.object? id = none ∧ later.dataSlots = ir.dataSlots := by
  refine ((deleteObject_block h.steady hb h.room).and (deleteObject_ends hneat hb)).mono ?_
  rintro _ later ⟨⟨hst, htrim⟩, hshed, hnone⟩
  have hgone : ∀ other, some other ∈ ir.dataSlots → other ∉ id :: gone := by
    intro other hm
    refine not_mem_cons_of_ne_of_not_mem ?_ (h.slots.not_gone h.steady hm)
    rintro rfl
    obtain ⟨reg, hr⟩ := h.slots other hm
    rw [kind?_of_block? hb] at hr
    cases hr
  refine ⟨⟨hst, ⟨_, hshed.neat hneat⟩, ?_, ?_, ?_⟩, hshed, hnone, htrim.slots⟩
  · exact h.slots.preserved (fun other hm => htrim.slots ▸ hm) hst hgone hshed.fades.becomes
  · rw [htrim.slots]
    exact h.few
  · rw [htrim.allocated]
    exact h.room

lemma clearBlocks_gives {bound : Nat} (hneat : ir.Neat order) (hbound : order.length ≤ bound) :
    Gives (clearBlocks bound) ir fun _ later => (∃ gone', later.Clearable held gone') ∧
      later.dataSlots = ir.dataSlots := by
  induction bound generalizing ir gone order with
  | zero => exact .pure ⟨⟨gone, h⟩, rfl⟩
  | succ bound ih =>
    rw [clearBlocks]
    refine .step rfl ?_
    cases hfirst : ir.first? with
    | none => exact .pure ⟨⟨gone, h⟩, rfl⟩
    | some first =>
      have hm : first ∈ order := mem_of_mem_head? (hneat.ordered.first ▸ hfirst)
      obtain ⟨blk, hb⟩ := hneat.ordered.block hm
      refine .bind (deleteFirst_gives h hneat hb) ?_
      rintro - mid ⟨hclearable, hshed, hnone, hslots⟩
      have hfewer : (order.filter mid.objects.contains).length < order.length := by
        refine length_filter_lt_length_iff_exists.mpr ⟨first, hm, ?_⟩
        rw [Arena.contains, ← object?, hnone]
        exact Bool.false_ne_true
      refine (ih hclearable (hshed.neat hneat) (by omega)).mono ?_
      rintro _ later ⟨hlater, hslots'⟩
      exact ⟨hlater, hslots'.trans hslots⟩

/-- A data slot is empty, and its register is gone if nothing else refers to
it. -/
lemma clearDataSlot_gives (index : Nat) : Gives (clearDataSlot index) ir fun _ later => later.Clearable held gone ∧
      ∀ other, later.dataSlot? other = if other = index then none else ir.dataSlot? other := by
  unfold clearDataSlot
  refine .step rfl ?_
  cases hslot : ir.dataSlot? index with
  | none =>
    refine .pure ⟨h, fun other => ?_⟩
    split
    · rename_i heq
      rw [heq, hslot]
    · rfl
  | some id =>
    have hget : ir.dataSlots[index]? = some (some id) := Option.join_eq_some_iff.mp hslot
    obtain ⟨order, hneat⟩ := h.neat
    let emptied : Builder := { ir with dataSlots := ir.dataSlots.set index none }
    have hst : emptied.Steady (id :: held) [] gone := by
      obtain ⟨hs, order, horder⟩ := h.steady
      exact ⟨hs.clearSlot hget, order, horder.congr (fun _ => rfl) rfl rfl⟩
    have hneat' : emptied.Neat order := ⟨hneat.wellFormed, hneat.ordered.congr (fun _ => rfl) rfl rfl, hneat.entry⟩
    have hsubset : ∀ other, some other ∈ emptied.dataSlots → some other ∈ ir.dataSlots := by
      intro other hm
      rcases mem_or_eq_of_mem_set hm with hm | heq
      · exact hm
      · cases heq
    obtain ⟨reg, hr⟩ := h.slots id (mem_of_getElem? hget)
    obtain ⟨refs, ho⟩ := object?_eq_of_kind? hr
    have hlive : emptied.SlotsLive := fun other hm => h.slots other (hsubset other hm)
    refine .step rfl (((releaseWith_steady (deleteObject_deletes _) (Nat.lt_succ_self _) hst ho).and
      (release_shedding id emptied)).mono ?_)
    rintro _ later ⟨⟨hlater, htrim⟩, hsheds⟩
    have hshed := hsheds order hneat'
    refine ⟨⟨hlater, ⟨_, hshed.neat hneat'⟩, ?_, ?_, ?_⟩, fun other => ?_⟩
    · refine hlive.preserved (fun other hm => htrim.slots ▸ hm) hlater (fun other hm => ?_) hshed.fades.becomes
      exact h.slots.not_gone h.steady (hsubset other hm)
    · rw [htrim.slots]
      exact Nat.le_trans (Nat.le_of_eq (length_set ..)) h.few
    · rw [htrim.allocated]
      exact h.room
    · rw [dataSlot?, htrim.slots]
      change (ir.dataSlots.set index none)[other]?.join = _
      rw [getElem?_set]
      by_cases heq : other = index
      · rw [if_pos heq, if_pos heq.symm]
        split <;> rfl
      · rw [if_neg heq, if_neg fun h => heq h.symm]
        rfl

lemma clearDataSlots_gives (indices : List Nat) :
    Gives (indices.forM clearDataSlot) ir fun _ later => later.Clearable held gone ∧
      ∀ other, later.dataSlot? other = if other ∈ indices then none else ir.dataSlot? other := by
  induction indices generalizing ir with
  | nil => exact .pure ⟨h, fun _ => (if_neg not_mem_nil).symm⟩
  | cons index rest ih =>
    rw [List.forM]
    refine .bind (clearDataSlot_gives h index) ?_
    rintro - mid ⟨hmid, hslot⟩
    refine (ih hmid).mono ?_
    rintro _ later ⟨hlater, hslot'⟩
    refine ⟨hlater, fun other => ?_⟩
    rw [hslot', hslot]
    by_cases hm : other ∈ rest
    · rw [if_pos hm, if_pos (.tail _ hm)]
    · rw [if_neg hm]
      by_cases heq : other = index
      · rw [if_pos heq, if_pos (heq ▸ mem_cons_self ..)]
      · rw [if_neg heq, if_neg (not_mem_cons_of_ne_of_not_mem heq hm)]

/-- Clearing succeeds, and no object, instruction or data slot is left. -/
lemma clear_gives : Gives clear ir fun _ later => (∀ id, later.object? id = none) ∧
    (∀ inst, later.instruction? inst = none) ∧ ∀ index, later.dataSlot? index = none := by
  obtain ⟨order, hneat⟩ := h.neat
  refine .step rfl (.bind (clearBlocks_gives h hneat (hneat.ordered.length_le hneat.wellFormed)) ?_)
  rintro - mid ⟨⟨gone', hmid⟩, -⟩
  refine .bind (clearDataSlots_gives hmid (range maxDataSlots)) ?_
  rintro - last ⟨-, hslot⟩
  refine .of_run rfl ⟨fun id => Arena.get?_clear _ id, fun inst => Arena.get?_clear _ inst, fun index => ?_⟩
  refine (hslot index).trans ?_
  split
  · rfl
  · rename_i hout
    have hlen := hmid.few
    rw [mem_range] at hout
    rw [dataSlot?, getElem?_eq_none (by omega)]
    rfl

end

end Build

/-- Whatever a caller did, clearing succeeds and leaves nothing behind; each
object and each instruction is freed once. -/
theorem Builder.emptied_by_clear {slots : Nat} {limit? : Option Nat} {builder : Builder} {ledger : Ledger}
    (h : Reached slots limit? builder ledger) : ∃ later, Build.clear.run.run builder = (.ok (), later) ∧
      builder.objects.Emptied later.objects ∧ builder.instructions.Emptied later.instructions ∧
      later.blocks = [] ∧ later.first? = none ∧ later.last? = none ∧ later.entryBlock? = none ∧
      ∀ index, later.dataSlot? index = none := by
  have hclearable := h.clearable
  obtain ⟨order, hneat⟩ := hclearable.neat
  obtain ⟨⟨⟩, later, hrun, ⟨hobjects, hinstructions, hslots⟩, hsheds⟩ :=
    (Build.clear_gives hclearable).and (Build.clear_shedding builder)
  have hshed := hsheds order hneat
  have hdead (id : ObjectId) : later.objects.contains id = false :=
    by rw [Arena.contains, ← object?, hobjects]; rfl
  have hempty : order.filter later.objects.contains = [] := List.filter_eq_nil_iff.mpr fun id _ => by simp [hdead]
  have hordered := hshed.ordered
  rw [hempty] at hordered
  refine ⟨later, hrun, hshed.fades.objects.emptied hclearable.steady.1.objects hobjects,
    hshed.fades.instructions.emptied hclearable.steady.1.instructions hinstructions,
    hordered.blocks_eq (hshed.fades.objects.wellFormed hneat.wellFormed), hordered.first,
    hordered.last, ?_, hslots⟩
  cases hentry : later.entryBlock? with
  | none => rfl
  | some id =>
    have hlive := (hshed.entry id hentry).2
    rw [hdead] at hlive
    cases hlive

/-- Two blocks jump to each other and to themselves, the caller holds one of
them, and a memory operand is never used. -/
theorem Builder.emptied_by_clear_cycle : ∃ builder ledger later, Reached 1 none builder ledger ∧
    builder.objects.live = 4 ∧
    builder.instructions.live = 3 ∧ Build.clear.run.run builder = (.ok (), later) ∧ later.objects.live = 0 ∧
    later.objects.freed = 4 ∧ later.instructions.freed = 3 := by
  have hcreated : Reached 1 none _ _ := .create rfl
  have hentry := Reached.step .initEntry hcreated (by decide +kernel) trivial
  have hblock := Reached.step .newBlock hentry (by decide +kernel) trivial
  have hmemory := Reached.step (.newMemory ⟨0, 0⟩ none 8) hblock (by decide +kernel) trivial
  have hself := Reached.step (.emit ⟨2, 0⟩ (.scalar .jmp) [⟨2, 0⟩]) hmemory (by decide +kernel) trivial
  have hback := Reached.step (.emit ⟨2, 0⟩ (.scalar .jmp) [⟨1, 0⟩]) hself (by decide +kernel) trivial
  have hforth := Reached.step (.emit ⟨1, 0⟩ (.scalar .jmp) [⟨2, 0⟩]) hback (by decide +kernel) trivial
  have hheld := Reached.step (.retain ⟨2, 0⟩) hforth (by decide +kernel) trivial
  obtain ⟨later, hrun, hobjects, hinstructions, -⟩ := emptied_by_clear hheld
  refine ⟨_, _, later, hheld, by decide +kernel, by decide +kernel, hrun, hobjects.live, ?_, ?_⟩
  · rw [← hobjects.balanced, hobjects.stored]
    decide +kernel
  · rw [← hinstructions.balanced, hinstructions.stored]
    decide +kernel

end Shading
