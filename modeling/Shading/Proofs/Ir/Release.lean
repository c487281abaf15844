import Shading.Proofs.Ir.Balance

/-!
# Dropping references

Releasing the last reference to an object removes it, and with it what only it
referred to.  Operands end this at once: a memory operand names registers, and
those name nothing (`Builder.Kept`: blocks and instructions stay).  A block
takes its instructions with it, whose operands can be blocks again; each of
these steps has fewer live objects than the one before.
-/

namespace Shading

open List Option

variable {ir : Builder} {closing gone held order : List ObjectId} {loose : List InstId} {id : ObjectId}
  {obj : Object} {bound : Nat} {block : Block} {reg : Register} {insts : Arena Instruction}

namespace Builder

/-- The links spell the list of all live blocks. -/
structure Ordered (ir : Builder) (order : List ObjectId) : Prop extends Listed ir order where
  complete : ∀ id block, ir.block? id = some block → id ∈ order

variable {mid later : Builder}

lemma Ordered.congr (h : ir.Ordered order) (hlinks : ∀ id, later.links? id = ir.links? id)
    (hfirst : later.first? = ir.first?) (hlast : later.last? = ir.last?) : later.Ordered order where
  toListed := h.toListed.congr (fun id _ => hlinks id) hfirst hlast
  complete id block hb := by
    have hsome : ir.links? id = some (block.prev?, block.next?) := by
      rw [← hlinks, links?, hb]
      rfl
    obtain ⟨block', hb', -⟩ := links?_eq_some hsome
    exact h.complete id block' hb'

/-! ## Builders that differ in their links -/

section

variable (h : later.unlinked = ir.unlinked)
include h

lemma object?_of_unlinked (ho : ir.object? id = some obj) :
    ∃ obj', later.object? id = some obj' ∧ obj'.unlinked = obj.unlinked := by
  have hobj : later.unlinked.object? id = (later.object? id).map Object.unlinked :=
    Arena.get?_map Object.unlinked id
  have hobject' : ir.unlinked.object? id = (ir.object? id).map Object.unlinked := Arena.get?_map Object.unlinked id
  rw [h, hobject', ho] at hobj
  exact map_eq_some_iff.mp hobj.symm

lemma block?_of_unlinked (hb : ir.block? id = some block) :
    ∃ block', later.block? id = some block' ∧ block'.unlinked = block.unlinked := by
  obtain ⟨refs, ho⟩ := object?_of_block? hb
  obtain ⟨⟨kind, refs'⟩, ho', hsame⟩ := object?_of_unlinked h ho
  have hkind : kind.unlinked = .block block.unlinked := congrArg Object.kind hsame
  cases kind with
  | block inside => exact ⟨inside, block?_of_kind? (kind?_of_object? ho'), ObjectKind.block.inj hkind⟩
  | _ => cases hkind

lemma counts_of_unlinked : later.objects.allocated = ir.objects.allocated ∧
    later.objects.live = ir.objects.live ∧ later.instructions = ir.instructions ∧
      later.dataSlots = ir.dataSlots := by
  have halloc : later.unlinked.objects.allocated = ir.unlinked.objects.allocated := by rw [h]
  have hlive : later.unlinked.objects.live = ir.unlinked.objects.live := by rw [h]
  have hinstructions : later.unlinked.instructions = ir.unlinked.instructions := by rw [h]
  have hslots : later.unlinked.dataSlots = ir.unlinked.dataSlots := by rw [h]
  exact ⟨halloc, hlive, hinstructions, hslots⟩

end

/-- New links leave the blocks there were. -/
lemma Listed.ordered (h : later.Listed order) (hcut : later.unlinked = ir.unlinked)
    (hcomplete : ∀ id block, ir.block? id = some block → id ∈ order) : later.Ordered order := by
  refine ⟨h, fun id block hb => ?_⟩
  obtain ⟨block', hb', -⟩ := block?_of_unlinked hcut.symm hb
  exact hcomplete id block' hb'

/-- A block splits the list. -/
lemma Ordered.split (h : ir.Ordered order) (hb : ir.block? id = some block) :
    ∃ pre after, order = pre ++ id :: after ∧ id ∉ pre ++ after ∧ order.erase id = pre ++ after := by
  obtain ⟨pre, after, rfl⟩ := append_of_mem (h.complete id block hb)
  have hnot : id ∉ pre ++ after := (nodup_middle.mp h.nodup).notMem
  refine ⟨pre, after, rfl, hnot, ?_⟩
  rw [erase_append_right _ fun hm => hnot (mem_append_left _ hm), erase_cons_head]

lemma unlinked_erase (h : later.unlinked = ir.unlinked) :
    ({ later with objects := later.objects.erase id } : Builder).unlinked =
    ({ ir with objects := ir.objects.erase id } : Builder).unlinked := by
  have herase (ir : Builder) : ({ ir with objects := ir.objects.erase id } : Builder).unlinked =
      { ir.unlinked with objects := ir.unlinked.objects.erase id } :=
    congrArg (fun objects => ({ ir.unlinked with objects } : Builder)) (Arena.map_erase Object.unlinked id)
  rw [herase, h, herase]

/-- At most the count of one object differs. -/
structure Recounted (ir : Builder) (id : ObjectId) (given : Builder) : Prop where
  kind : ∀ other, given.kind? other = ir.kind? other
  others : ∀ other, other ≠ id → given.object? other = ir.object? other
  live : given.objects.live = ir.objects.live
  erased : ({ given with objects := given.objects.erase id } : Builder) =
    { ir with objects := ir.objects.erase id }

lemma Recounted.refl (ir : Builder) (id : ObjectId) : ir.Recounted id ir :=
  ⟨fun _ => rfl, fun _ _ => rfl, rfl, rfl⟩

lemma Recounted.setRefs (ho : ir.object? id = some obj) (f : Nat → Nat) :
    ir.Recounted id (ir.setObject id fun obj => { obj with refs := f obj.refs }) := by
  have hobj := object?_setObject ho fun obj => { obj with refs := f obj.refs }
  refine ⟨fun other => ?_, fun other hne => (hobj other).trans (if_neg hne), Arena.live_modify _,
    congrArg (fun objects => ({ ir with objects } : Builder)) (Arena.erase_modify _)⟩
  rw [kind?, hobj, kind?]
  split
  · rename_i heq
    rw [heq, ho]
    rfl
  · rfl

/-- A block with an empty slot is marked. -/
def Marked (ir : Builder) : Prop := ∀ id block, ir.block? id = some block → block.requiresFixup = false →
    none ∉ block.slots

/-- A block that is off the list is freed. -/
lemma Ordered.free {pre after : List ObjectId} (h : ir.Ordered (pre ++ id :: after))
    (hlisted : mid.Listed (pre ++ after)) (hcut : mid.unlinked = ir.unlinked)
    (ho : mid.object? id = some obj) :
    ({ mid with objects := mid.objects.erase id } : Builder).Ordered (pre ++ after) := by
  have hgone : (mid.objects.erase id).get? id = none := Arena.get?_erase_self ho
  have hblk (other : ObjectId) (hne : other ≠ id) :
      ({ mid with objects := mid.objects.erase id } : Builder).block? other = mid.block? other := by
    rw [block?, kind?, block?, kind?]
    exact congrArg (fun object? => (Option.map Object.kind object?).bind _) (Arena.get?_erase_of_ne ho hne)
  have hnot : id ∉ pre ++ after := (List.nodup_middle.mp h.nodup).notMem
  refine ⟨hlisted.congr (fun other hm => ?_) rfl rfl, fun other inside hin => ?_⟩
  · rw [links?, hblk other fun heq => hnot (heq ▸ hm), links?]
  · have hne : other ≠ id := by
      rintro rfl
      rw [block?, kind?, object?, hgone] at hin
      cases hin
    obtain ⟨inside', hinside', -⟩ := block?_of_unlinked hcut.symm ((hblk other hne).symm.trans hin)
    have hm := h.complete other inside' hinside'
    simp only [mem_append, mem_cons, hne, false_or] at hm
    exact mem_append.mpr hm

/-! ## What a removal keeps -/

/-- The account as it is with other instructions, which removing an operand
does not look at. -/
def SoundWith (ir : Builder) (instructions : Arena Instruction) (held : List ObjectId) (loose : List InstId)
    (closing gone : List ObjectId) : Prop :=
  ({ ir with instructions } : Builder).Sound held loose closing gone

/-- Objects other than blocks may be gone and counts may differ; everything
else is as before. -/
structure Kept (ir later : Builder) : Prop where
  objects : ∀ id object, later.object? id = some object → ∃ refs, ir.object? id = some ⟨object.kind, refs⟩
  block : ∀ id, later.block? id = ir.block? id
  instructions : later.instructions = ir.instructions
  first : later.first? = ir.first?
  last : later.last? = ir.last?
  entry : later.entryBlock? = ir.entryBlock?
  slots : later.dataSlots = ir.dataSlots
  allocated : later.objects.allocated = ir.objects.allocated
  live : later.objects.live ≤ ir.objects.live

namespace Kept

lemma refl (ir : Builder) : ir.Kept ir :=
  ⟨fun _ obj ho => ⟨obj.refs, ho⟩, fun _ => rfl, rfl, rfl, rfl, rfl, rfl, rfl, Nat.le_refl _⟩

lemma trans (h : ir.Kept mid) (h' : mid.Kept later) : ir.Kept later where
  objects id obj ho := by
    obtain ⟨refs, hm⟩ := h'.objects id obj ho
    exact h.objects id ⟨obj.kind, refs⟩ hm
  block id := (h'.block id).trans (h.block id)
  instructions := h'.instructions.trans h.instructions
  first := h'.first.trans h.first
  last := h'.last.trans h.last
  entry := h'.entry.trans h.entry
  slots := h'.slots.trans h.slots
  allocated := h'.allocated.trans h.allocated
  live := Nat.le_trans h'.live h.live

lemma ordered (h : ir.Kept later) (ho : ir.Ordered order) : later.Ordered order :=
  ho.congr (fun id => by rw [links?, h.block, links?]) h.first h.last

/-- Counts may change. -/
lemma setRefs (ho : ir.object? id = some obj) (f : Nat → Nat) :
    ir.Kept (ir.setObject id fun obj => { obj with refs := f obj.refs }) := by
  have hobj := object?_setObject ho fun obj => { obj with refs := f obj.refs }
  refine ⟨fun other stored hs => ?_, fun other => ?_, rfl, rfl, rfl, rfl, rfl, Arena.allocated_modify _, ?_⟩
  · rw [hobj] at hs
    split at hs
    · rename_i heq
      cases hs
      exact ⟨obj.refs, heq ▸ ho⟩
    · exact ⟨stored.refs, hs⟩
  · rw [block?, kind?, hobj, block?, kind?]
    split
    · rename_i heq
      rw [heq, ho]
      rfl
    · rfl
  · exact Nat.le_of_eq (Arena.live_modify _)

lemma free (ho : ir.object? id = some obj) (hblk : obj.kind.block? = none) :
    ir.Kept { ir with objects := ir.objects.erase id } := by
  have hself : (ir.objects.erase id).get? id = none := Arena.get?_erase_self ho
  have hother (other : ObjectId) (hne : other ≠ id) : (ir.objects.erase id).get? other = ir.object? other :=
    Arena.get?_erase_of_ne ho hne
  refine ⟨fun other stored hs => ?_, fun other => ?_, rfl, rfl, rfl, rfl, rfl, Arena.allocated_erase ho, ?_⟩
  · have hne : other ≠ id := by
      rintro rfl
      rw [object?, hself] at hs
      cases hs
    exact ⟨stored.refs, (hother other hne).symm.trans hs⟩
  · rw [block?, kind?, object?, block?, kind?]
    by_cases heq : other = id
    · rw [heq, hself, ho]
      exact hblk.symm
    · rw [hother other heq]
  · dsimp only
    rw [Arena.live_erase ho]
    exact Nat.sub_le _ _

lemma sound (h : ir.Kept later) (hs : later.SoundWith ir.instructions held loose closing gone) :
    later.Sound held loose closing gone := by
  rwa [SoundWith, ← h.instructions] at hs

/-- What is held is there still. -/
lemma kind?_of_held {held' closing' : List ObjectId} {kind : ObjectKind} (h : ir.Kept later)
    (hs : ir.SoundWith insts held' loose closing' gone) (hs' : later.SoundWith insts held loose closing gone)
    (hm : id ∈ held) (hk : ir.kind? id = some kind) : later.kind? id = some kind := by
  obtain ⟨refs, ho⟩ := object?_eq_of_kind? hk
  have hcount := count_pos_iff.mpr hm
  rcases hs'.solid id (by omega) with hlive | hgone
  · obtain ⟨obj, hobj⟩ := contains_iff.mp hlive
    obtain ⟨refs', ho'⟩ := h.objects id obj hobj
    rw [ho, some.injEq, Object.mk.injEq] at ho'
    exact (kind?_of_object? hobj).trans (congrArg some ho'.1.symm)
  · have hnone : ir.object? id = none := Arena.get?_of_spent (hs.spent id hgone)
    rw [ho] at hnone
    cases hnone

end Kept

/-- The object is gone, and no memory operand but it changed. -/
def Frees (ir : Builder) (id : ObjectId) (later : Builder) : Prop :=
  later.object? id = none ∧ ∀ other operand, other ≠ id → ir.kind? other = some (.memory operand) →
    later.object? other = ir.object? other

/-- The account of a builder between two steps of a removal. -/
def Steady (ir : Builder) (held : List ObjectId) (loose : List InstId) (gone : List ObjectId) : Prop :=
  ir.Sound held loose [] gone ∧ ∃ order, ir.Ordered order

/-- Loose instructions stay, and there are no more objects than before. -/
structure Trimmed (ir : Builder) (loose : List InstId) (later : Builder) : Prop where
  loose : ∀ inst ∈ loose, later.instruction? inst = ir.instruction? inst
  slots : later.dataSlots = ir.dataSlots
  allocated : later.objects.allocated = ir.objects.allocated
  live : later.objects.live ≤ ir.objects.live

lemma Trimmed.refl (ir : Builder) (loose : List InstId) : ir.Trimmed loose ir :=
  ⟨fun _ _ => rfl, rfl, rfl, Nat.le_refl _⟩

lemma Trimmed.trans (h : ir.Trimmed loose mid) (h' : mid.Trimmed loose later) : ir.Trimmed loose later where
  loose inst hm := (h'.loose inst hm).trans (h.loose inst hm)
  slots := h'.slots.trans h.slots
  allocated := h'.allocated.trans h.allocated
  live := Nat.le_trans h'.live h.live

lemma Trimmed.mono {more : List InstId} (h : ir.Trimmed more later) (hsub : loose ⊆ more) :
    ir.Trimmed loose later :=
  ⟨fun inst hm => h.loose inst (hsub hm), h.slots, h.allocated, h.live⟩

lemma Kept.trimmed (h : ir.Kept later) (loose : List InstId) : ir.Trimmed loose later where
  loose inst _ := by rw [instruction?, h.instructions, instruction?]
  slots := h.slots
  allocated := h.allocated
  live := h.live

end Builder

namespace Build

open Builder

variable {delete : ObjectId → Build Unit} {mid later : Builder}

/-! ## Operands -/

/-- Dropping a reference, where it is known how the object goes with the last
one. -/
lemma releaseWith_gives {post : Builder → Prop} (h : ir.SoundWith insts (id :: held) loose closing gone)
    (ho : ir.object? id = some obj)
    (hkept : ∀ mid, mid.SoundWith insts held loose closing gone → ir.Kept mid → (∀ other, other ≠ id →
      mid.object? other = ir.object? other) → mid.refs? id ≠ some 0 → post mid)
    (hlast : ∀ mid, mid.SoundWith insts held loose closing gone → ir.Kept mid → (∀ other, other ≠ id →
      mid.object? other = ir.object? other) → mid.object? id = some ⟨obj.kind, 0⟩ →
        Gives (delete id) mid fun _ => post) :
    Gives (releaseWith delete id) ir fun _ => post := by
  have hobj := object?_setObject ho fun obj => { obj with refs := obj.refs - 1 }
  have hrest (other : ObjectId) (hne : other ≠ id) := (hobj other).trans (if_neg hne)
  have hrefs : obj.refs ≠ 0 := by
    have hpos : (id :: held).count id = held.count id + 1 := count_cons_self
    have hcount := h.refs id obj ho
    omega
  unfold releaseWith
  refine .step (object_run ho) ?_
  rw [if_neg hrefs]
  refine .step (modifyObject_run _) ?_
  split
  · rename_i hone
    refine hlast _ (h.drop ho) (.setRefs ho (· - 1)) hrest ?_
    rw [hobj id, if_pos rfl, hone]
  · refine .pure (hkept _ (h.drop ho) (.setRefs ho (· - 1)) hrest ?_)
    rw [refs?, hobj id, if_pos rfl, map_some, Ne, some.injEq]
    dsimp only
    omega

lemma freeObject_gives (h : ir.SoundWith insts held loose (id :: closing) gone) (ho : ir.object? id = some obj)
    (hblk : obj.kind.block? = none) (hrefs : obj.refs = 0) :
    Gives (freeObject id) ir fun _ later => later.SoundWith insts held loose closing gone ∧ ir.Kept later ∧
      later.object? id = none ∧ ∀ other, other ≠ id → later.object? other = ir.object? other := by
  have hplaced : obj.kind.placed = [] := by
    cases hk : obj.kind with
    | block inside =>
      rw [hk] at hblk
      cases hblk
    | _ => rfl
  have hfreed := h.free ho h.room (List.Subset.refl gone) (fun _ hm => .inr hm) (.inl hrefs) (.inl hrefs)
  rw [hplaced] at hfreed
  exact .of_run rfl ⟨hfreed, .free ho hblk, Arena.get?_erase_self ho, fun other hne =>
    Arena.get?_erase_of_ne ho hne⟩

lemma deleteRegister_gives (h : ir.SoundWith insts held loose closing gone) (hc : id ∉ closing)
    (ho : ir.object? id = some ⟨.register reg, 0⟩) (hbound : bound ≠ 0) :
    Gives (deleteUpTo bound id) ir fun _ later => later.SoundWith insts held loose closing gone ∧ ir.Kept later ∧
      later.object? id = none ∧ ∀ other, other ≠ id → later.object? other = ir.object? other := by
  obtain ⟨bound, rfl⟩ := Nat.exists_eq_succ_of_ne_zero hbound
  rw [deleteUpTo]
  exact .step (object_run ho) (freeObject_gives (h.close ho hc) ho rfl rfl)

lemma releaseRegister_gives (h : ir.SoundWith insts (id :: held) loose closing gone)
    (hc : id ∉ closing) (hk : ir.kind? id = some (.register reg)) (hbound : bound ≠ 0) :
    Gives (releaseWith (deleteUpTo bound) id) ir fun _ later => later.SoundWith insts held loose closing gone ∧
      ir.Kept later ∧ ∀ other, other ≠ id → later.object? other = ir.object? other := by
  obtain ⟨refs, ho⟩ := object?_eq_of_kind? hk
  refine releaseWith_gives h ho (fun mid hs hkept hrest _ => ⟨hs, hkept, hrest⟩) fun mid hs hkept hrest hlast => ?_
  refine (deleteRegister_gives hs hc hlast hbound).mono ?_
  rintro - later ⟨hs', hkept', -, hothers'⟩
  exact ⟨hs', hkept.trans hkept', fun other hne => (hothers' other hne).trans (hrest other hne)⟩

lemma deleteMemory_gives {opd : MemoryOperand} (h : ir.SoundWith insts held loose [] gone)
    (ho : ir.object? id = some ⟨.memory opd, 0⟩) (hbound : 1 < bound) :
    Gives (deleteUpTo bound id) ir fun _ later => later.SoundWith insts held loose [] gone ∧ ir.Kept later ∧
      ir.Frees id later := by
  obtain ⟨base, index?, off⟩ := opd
  obtain ⟨bound, rfl⟩ : ∃ n, bound = n + 1 := ⟨bound - 1, by omega⟩
  have hpos : bound ≠ 0 := by omega
  have hnames := h.registers id _ (kind?_of_object? ho) not_mem_nil
  have hne : ∀ name ∈ (ObjectKind.memory ⟨base, index?, off⟩).names, name ≠ id := by
    rintro name hm rfl
    obtain ⟨reg, hr⟩ := hnames name hm
    cases (kind?_of_object? ho).symm.trans hr
  have hbase : base ∈ (ObjectKind.memory ⟨base, index?, off⟩).names := mem_cons_self ..
  obtain ⟨reg, hr⟩ := hnames base hbase
  have hfree {late : Builder} (hs : late.SoundWith insts held loose [id] gone) (hkept : ir.Kept late)
      (hsame : ∀ other opd, ir.kind? other = some (.memory opd) → late.object? other = ir.object? other) :
      Gives (freeObject id) late fun _ later => later.SoundWith insts held loose [] gone ∧ ir.Kept later ∧
      ir.Frees id later := by
    refine (freeObject_gives hs ((hsame id _ (kind?_of_object? ho)).trans ho) rfl rfl).mono ?_
    rintro - later ⟨hs', hkept', hself, hrest⟩
    exact ⟨hs', hkept.trans hkept', hself, fun other opd hne hk => (hrest other hne).trans (hsame other opd hk)⟩
  have hmem {name other : ObjectId} {opd : MemoryOperand} {reg : Register} (hr : ir.kind? name =
    some (.register reg)) (hk : ir.kind? other = some (.memory opd)) : other ≠ name := by
    rintro rfl
    cases hr.symm.trans hk
  rw [deleteUpTo]
  refine .step (object_run ho) ?_
  refine .bind (releaseRegister_gives (h.close ho not_mem_nil) (by simpa using hne base hbase) hr hpos) ?_
  rintro - mid ⟨hs, hkept, hrest⟩
  have hsame (other : ObjectId) (opd : MemoryOperand) (hk : ir.kind? other = some (.memory opd)) :=
    hrest other (hmem hr hk)
  cases index? with
  | none => exact hfree hs hkept hsame
  | some index =>
    have hindex : index ∈ (ObjectKind.memory ⟨base, some index, off⟩).names := by simp [ObjectKind.names]
    obtain ⟨reg, hr⟩ := hnames index hindex
    -- The index can be the base, which is there still as it is held.
    have hr' := hkept.kind?_of_held h hs (.head _) hr
    refine .bind (releaseRegister_gives hs (by simpa using hne index hindex) hr' hpos) ?_
    rintro - late ⟨hs', hkept', hothers'⟩
    exact hfree hs' (hkept.trans hkept') fun other opd hk => (hothers' other (hmem hr hk)).trans
      (hsame other opd hk)

/-- Removing an operand leaves blocks and instructions as they are. -/
lemma deleteOperand_gives (h : ir.SoundWith insts held loose [] gone) (ho : ir.object? id = some obj)
    (hblk : obj.kind.block? = none) (hrefs : obj.refs = 0) (hbound : 1 < bound) :
    Gives (deleteUpTo bound id) ir fun _ later => later.SoundWith insts held loose [] gone ∧ ir.Kept later ∧
      ir.Frees id later := by
  obtain ⟨kind, refs⟩ := obj
  obtain rfl : refs = 0 := hrefs
  have hpos : bound ≠ 0 := by omega
  cases kind with
  | register reg =>
    refine (deleteRegister_gives h not_mem_nil ho hpos).mono ?_
    rintro - later ⟨hs, hkept, hself, hrest⟩
    exact ⟨hs, hkept, hself, fun other _ hne _ => hrest other hne⟩
  | immediate opd =>
    obtain ⟨bound, rfl⟩ := Nat.exists_eq_succ_of_ne_zero hpos
    have hnames : ({ ir with immediates := ir.immediates.filter (·.2 ≠ id) } : Builder).SoundWith insts held loose [] gone :=
      h.congr rfl rfl rfl rfl rfl
    rw [deleteUpTo]
    refine .step (object_run ho) (.step rfl ?_)
    refine (freeObject_gives (hnames.close ho not_mem_nil) ho rfl rfl).mono ?_
    rintro - later ⟨hs, hkept, hself, hrest⟩
    exact ⟨hs, ⟨hkept.objects, hkept.block, hkept.instructions, hkept.first, hkept.last, hkept.entry, hkept.slots,
      hkept.allocated, hkept.live⟩, hself, fun other _ hne _ => hrest other hne⟩
  | memory opd => exact deleteMemory_gives h ho hbound
  | block inside => cases hblk

/-- A memory operand that changed was released, and has references if it is
left. -/
def Releases (ids : List ObjectId) (ir later : Builder) : Prop :=
  ∀ id operand, ir.kind? id = some (.memory operand) → later.object? id = ir.object? id ∨ id ∈ ids ∧
    later.refs? id ≠ some 0

lemma Releases.of_ne (hself : later.refs? id ≠ some 0) (hothers : ∀ other opd, other ≠ id →
    ir.kind? other = some (.memory opd) → later.object? other = ir.object? other) : Releases [id] ir later := by
  intro other opd hk
  by_cases heq : other = id
  · exact .inr ⟨mem_singleton.mpr heq, heq ▸ hself⟩
  · exact .inl (hothers other opd heq hk)

lemma Releases.trans {ids : List ObjectId} (h : Releases [id] ir mid) (hkept : ir.Kept mid)
    (h' : Releases ids mid later) (hkept' : mid.Kept later) : Releases (id :: ids) ir later := by
  intro other opd hk
  rcases h other opd hk with hsame | ⟨hm, hrefs⟩
  · rw [← hsame]
    exact (h' other opd ((congrArg (Option.map _) hsame).trans hk)).imp_right fun hright =>
      ⟨.tail _ hright.1, hright.2⟩
  · refine .inr ⟨mem_append_left ids hm, fun hzero => hrefs ?_⟩
    obtain ⟨obj, ho, hobj⟩ := map_eq_some_iff.mp hzero
    obtain ⟨refs, hmid⟩ := hkept'.objects other obj ho
    obtain ⟨_, hold⟩ := hkept.objects other _ hmid
    have hkind := (kind?_of_object? hmid).trans ((kind?_of_object? hold).symm.trans hk)
    rcases h' other opd hkind with hsame | ⟨-, hne⟩
    · rw [refs?, ← hsame, ho, map_some, hobj]
    · exact absurd hzero hne

/-- Operands that are held are released; blocks stay. -/
lemma releaseOperands_gives {opds : List ObjectId} (h : ir.SoundWith insts (opds ++ held) loose [] gone)
    (hblocks : ∀ id ∈ opds, ir.block? id = none) :
    Gives (opds.forM fun opd => do
      if (← get).objects.contains opd then releaseWith deleteObject opd) ir fun _ later =>
        later.SoundWith insts held loose [] gone ∧ ir.Kept later ∧ Releases opds ir later := by
  induction opds generalizing ir with
  | nil => exact .pure ⟨h, .refl ir, fun _ _ _ => .inl rfl⟩
  | cons opd rest ih =>
    rw [List.forM]
    have hstep : Gives (do if (← get).objects.contains opd then releaseWith deleteObject opd) ir fun _ later =>
        later.SoundWith insts (rest ++ held) loose [] gone ∧ ir.Kept later ∧ Releases [opd] ir later := by
      refine .step rfl ?_
      split
      · rename_i hc
        obtain ⟨⟨kind, refs⟩, ho⟩ := contains_iff.mp hc
        have hblk : kind.block? = none := by
          have hnone := hblocks opd (.head _)
          rwa [block?, kind?_of_object? ho] at hnone
        refine releaseWith_gives h ho
          (fun mid hs hkept hothers hrefs => ⟨hs, hkept, .of_ne hrefs fun other _ hne _ => hothers other hne⟩)
          fun mid hs hkept hothers hlast => ?_
        have hlive : 0 < mid.objects.live := Arena.live_pos hs.objects hlast
        refine .step rfl ((deleteOperand_gives hs hlast hblk rfl (by omega)).mono ?_)
        rintro - later ⟨hs', hkept', hnone, hsame⟩
        refine ⟨hs', hkept.trans hkept', .of_ne (by rw [refs?, hnone]; rintro ⟨⟩) fun other kind hne hk => ?_⟩
        have hmid := hothers other hne
        exact (hsame other kind hne ((congrArg (Option.map _) hmid).trans hk)).trans hmid
      · rename_i hc
        have hnone : ir.object? opd = none := not_isSome_iff_eq_none.mp hc
        exact .pure ⟨h.dropStale hnone, .refl ir, .of_ne (by rw [refs?, hnone]; rintro ⟨⟩) fun _ _ _ _ => rfl⟩
    refine hstep.bind ?_
    rintro - mid ⟨hs, hkept, hreleases⟩
    refine (ih hs fun id hm => (hkept.block id).trans (hblocks id (.tail _ hm))).mono ?_
    rintro - later ⟨hs', hkept', hreleases'⟩
    exact ⟨hs', hkept.trans hkept', hreleases.trans hkept hreleases' hkept'⟩

/-! ## Blocks -/

/-- `delete` removes objects that nothing refers to, if there are fewer than
`bound` objects. -/
def Deletes (delete : ObjectId → Build Unit) (bound : Nat) : Prop :=
  ∀ (ir : Builder) held loose gone id obj, ir.Steady held loose gone → ir.object? id = some obj →
    obj.refs = 0 → ir.objects.live < bound →
      Gives (delete id) ir fun _ later => later.Steady held loose gone ∧ ir.Trimmed loose later

section

variable (hd : Deletes delete bound) (hlive : ir.objects.live < bound)

include hd hlive

lemma releaseWith_steady (h : ir.Steady (id :: held) loose gone) (ho : ir.object? id = some obj) :
    Gives (releaseWith delete id) ir fun _ later => later.Steady held loose gone ∧ ir.Trimmed loose later := by
  obtain ⟨hs, order, horder⟩ := h
  refine releaseWith_gives hs ho (fun mid hs hkept _ _ => ⟨⟨hkept.sound hs, order, hkept.ordered horder⟩,
    hkept.trimmed loose⟩) ?_
  intro mid hs hkept _ hlast
  refine (hd mid held loose gone id _ ⟨hkept.sound hs, order, hkept.ordered horder⟩ hlast rfl
    (Nat.lt_of_le_of_lt hkept.live hlive)).mono ?_
  rintro - later ⟨hst, htrim⟩
  exact ⟨hst, (hkept.trimmed loose).trans htrim⟩

/-- Releases operands that are held, but for those that are gone. -/
lemma releaseOperands_steady {opds : List ObjectId} (h : ir.Steady (opds ++ held) loose gone) :
    Gives (opds.forM fun opd => do
      if (← get).objects.contains opd then releaseWith delete opd) ir fun _ later =>
        later.Steady held loose gone ∧ ir.Trimmed loose later := by
  induction opds generalizing ir with
  | nil => exact .pure ⟨h, .refl ir loose⟩
  | cons opd rest ih =>
    rw [List.forM]
    have hstep : Gives (do if (← get).objects.contains opd then releaseWith delete opd) ir fun _ later =>
        later.Steady (rest ++ held) loose gone ∧ ir.Trimmed loose later := by
      refine .step rfl ?_
      split
      · rename_i hc
        obtain ⟨obj, ho⟩ := contains_iff.mp hc
        exact releaseWith_steady hd hlive h ho
      · rename_i hc
        have hnone : ir.object? opd = none := not_isSome_iff_eq_none.mp hc
        exact .pure ⟨⟨h.1.dropStale hnone, h.2⟩, .refl ir loose⟩
    refine hstep.bind ?_
    rintro - mid ⟨hs, htrim⟩
    refine (ih (Nat.lt_of_le_of_lt htrim.live hlive) hs).mono ?_
    rintro - later ⟨hs', htrimmed'⟩
    exact ⟨hs', htrim.trans htrimmed'⟩

/-- A loose instruction is removed, and what it holds is released. -/
lemma deleteInstWith_steady {inst : InstId} {instr : Instruction} (hi : ir.instruction? inst = some instr)
    (h : ir.Steady (instr.operands ++ held) (inst :: loose) gone) :
    Gives (deleteInstWith delete inst) ir fun _ later => later.Steady held loose gone ∧
      ir.Trimmed loose later := by
  unfold deleteInstWith
  refine .step rfl ?_
  rw [hi]
  refine .bind (releaseOperands_steady hd hlive h) ?_
  rintro - mid ⟨⟨hs, order, horder⟩, htrim⟩
  have hinst := (htrim.loose inst (.head _)).trans hi
  have hnot : inst ∉ loose := hs.not_mem_loose
  refine .of_run rfl ⟨⟨hs.freeInst hinst, order, horder.congr (fun _ => rfl) rfl rfl⟩,
    ⟨fun other hm => ?_, htrim.slots, htrim.allocated, htrim.live⟩⟩
  rw [← htrim.loose other (.tail _ hm)]
  exact Arena.get?_erase_of_ne hinst fun heq => hnot (heq ▸ hm)

lemma deleteInsts_steady {insts : List InstId} (hinsts : ∀ inst ∈ insts, ir.instructions.contains inst = true)
    (h : ir.Steady (insts.flatMap ir.operandsOf ++ held) (insts ++ loose) gone) :
    Gives (insts.forM (deleteInstWith delete)) ir fun _ later => later.Steady held loose gone ∧
      ir.Trimmed loose later := by
  induction insts generalizing ir with
  | nil => exact .pure ⟨h, .refl ir loose⟩
  | cons inst rest ih =>
    obtain ⟨instr, hi⟩ := Arena.contains_iff.mp (hinsts inst (.head _))
    rw [List.flatMap_cons, operandsOf_eq hi, List.append_assoc, List.cons_append] at h
    rw [List.forM]
    refine .bind (deleteInstWith_steady hd hlive hi h) ?_
    rintro - mid ⟨hs, htrim⟩
    have hsame (other : InstId) (hm : other ∈ rest) := htrim.loose other (mem_append_left _ hm)
    have hopds : rest.flatMap ir.operandsOf = rest.flatMap mid.operandsOf :=
      flatMap_congr fun other hm => by rw [operandsOf, operandsOf, hsame other hm]
    rw [hopds] at hs
    refine (ih (Nat.lt_of_le_of_lt htrim.live hlive) (fun other hm => ?_) hs).mono ?_
    · obtain ⟨found, hfound⟩ := Arena.contains_iff.mp (hinsts other (.tail _ hm))
      exact Arena.contains_iff.mpr ⟨found, (hsame other hm).trans hfound⟩
    · rintro - later ⟨hs', htrimmed'⟩
      exact ⟨hs', (htrim.mono (subset_append_right rest loose)).trans htrimmed'⟩

end

lemma dropEntry_gives (h : ir.Sound held loose closing gone) (ho : ir.object? id = none) :
    Gives (modify fun ir => if ir.entryBlock? = some id then { ir with entryBlock? := none } else ir)
      ir fun _ later => later.Sound held loose closing gone ∧ later.objects = ir.objects ∧
        later.instructions = ir.instructions ∧ later.first? = ir.first? ∧ later.last? = ir.last? ∧
          later.dataSlots = ir.dataSlots := by
  refine ⟨(), if ir.entryBlock? = some id then { ir with entryBlock? := none } else ir, rfl, ?_⟩
  split
  · rename_i hentry
    exact ⟨h.dropEntry hentry ho, rfl, rfl, rfl, rfl, rfl⟩
  · exact ⟨h, rfl, rfl, rfl, rfl, rfl⟩

/-- A block is taken off the list and freed, whatever its count is, and its
instructions go with it.  If something still refers to it, it is gone. -/
lemma deleteBlock_steady {gone' : List ObjectId} {given : Builder} (hd : Deletes delete bound)
    (h : ir.Steady held loose gone) (hgiven : ir.Recounted id given) (hb : ir.block? id = some block)
    (hroom : gone' ≠ [] → ir.objects.allocated < UInt32.size) (hsub : gone ⊆ gone')
    (hsup : ∀ other ∈ gone', other = id ∨ other ∈ gone) (hself : ir.refs? id = some 0 ∨ id ∈ gone')
    (hlive : ir.objects.live ≤ bound) :
    Gives (do
      unlink id
      freeObject id
      modify fun ir => if ir.entryBlock? = some id then { ir with entryBlock? := none } else ir
      block.instructions.forM (deleteInstWith delete)) given fun _ later =>
        later.Steady held loose gone' ∧ ir.Trimmed loose later := by
  obtain ⟨hs, order, horder⟩ := h
  obtain ⟨pre, after, rfl⟩ := append_of_mem (horder.complete id block hb)
  obtain ⟨refs, ho⟩ := object?_of_block? hb
  have hord : given.Ordered (pre ++ id :: after) := by
    have hfields := Builder.mk.inj hgiven.erased
    refine horder.congr (fun other => ?_) hfields.2.2.1 hfields.2.2.2.1
    rw [links?, block?, hgiven.kind, links?, block?]
  refine .bind (unlink_gives hord.toListed) ?_
  rintro - mid ⟨hlisted, hcut⟩
  let freed : Builder := { mid with objects := mid.objects.erase id }
  have hfree : freed.unlinked = ({ ir with objects := ir.objects.erase id } : Builder).unlinked :=
    hgiven.erased ▸ unlinked_erase hcut
  obtain ⟨halloc, hcount, hinstructions, hslots⟩ := counts_of_unlinked hfree
  have hfreed := ((hs.close ho not_mem_nil).free ho hroom hsub hsup
    (hself.imp_left fun hzero => by rwa [refs?, ho, map_some, some.injEq] at hzero) (.inr fun _ heq =>
      by cases heq)).relink hfree
  obtain ⟨block', hb', -⟩ :=
    block?_of_unlinked hcut ((congrArg (·.bind ObjectKind.block?) (hgiven.kind id)).trans hb)
  obtain ⟨refs', ho'⟩ := object?_of_block? hb'
  have hpos := Arena.live_pos hs.objects ho
  have hfew : freed.objects.live = ir.objects.live - 1 := hcount.trans (Arena.live_erase ho)
  refine .step rfl (.bind (dropEntry_gives hfreed (Arena.get?_erase_self ho')) ?_)
  rintro - last ⟨hs', hobjs, hlast, hfirst, hend, hdata⟩
  have hst : last.Steady (block.instructions.flatMap last.operandsOf ++ held) (block.instructions ++
      loose) gone' := by
    have hopds : last.operandsOf = ir.operandsOf := by
      funext inst
      rw [operandsOf, instruction?, hlast, hinstructions, operandsOf, instruction?]
    have hlinks (other : ObjectId) : last.links? other = freed.links? other := by
      rw [links?, block?, kind?, object?, hobjs, links?, block?, kind?, object?]
    exact ⟨hopds ▸ hs', _, (hord.free hlisted hcut ho').congr hlinks hfirst hend⟩
  refine (deleteInsts_steady hd (by rw [hobjs]; change freed.objects.live < bound; omega)
    (hlast ▸ hinstructions ▸ (hs.nodup_placed ho).1) hst).mono ?_
  rintro - later ⟨hsteady', htrim⟩
  refine ⟨hsteady', fun inst hm => ?_, htrim.slots.trans (hdata.trans hslots), ?_, ?_⟩
  · rw [htrim.loose inst hm, instruction?, hlast, instruction?, hinstructions]
  · rw [htrim.allocated, hobjs, halloc]
    exact Arena.allocated_erase ho
  · have hle : later.objects.live ≤ freed.objects.live := hobjs ▸ htrim.live
    omega

lemma deleteUpTo_block {post : Unit → Builder → Prop} (hb : ir.block? id = some block) (h : Gives (do
      unlink id
      freeObject id
      modify fun ir => if ir.entryBlock? = some id then { ir with entryBlock? := none } else ir
      block.instructions.forM (deleteInstWith (deleteUpTo bound))) ir post) :
    Gives (deleteUpTo (bound + 1) id) ir post := by
  obtain ⟨refs, ho⟩ := object?_of_block? hb
  rw [deleteUpTo]
  exact .step (object_run ho) h

lemma deleteUpTo_deletes (bound : Nat) : Deletes (deleteUpTo bound) bound := by
  induction bound with
  | zero => exact fun _ _ _ _ _ _ _ _ _ hlive => absurd hlive (Nat.not_lt_zero _)
  | succ bound ih =>
    intro ir held loose gone id obj h ho hrefs hlive
    have hpos := Arena.live_pos h.1.objects ho
    cases hk : obj.kind.block? with
    | none =>
      obtain ⟨hs, order, horder⟩ := h
      refine (deleteOperand_gives hs ho hk hrefs (by omega)).mono ?_
      rintro - later ⟨hs', hkept, -⟩
      exact ⟨⟨hkept.sound hs', order, hkept.ordered horder⟩, hkept.trimmed loose⟩
    | some block =>
      have hb : ir.block? id = some block := by rw [block?, kind?_of_object? ho, bind_some, hk]
      have hzero : ir.refs? id = some 0 := by rw [refs?, ho, map_some, hrefs]
      exact deleteUpTo_block hb (deleteBlock_steady ih h (.refl ir id) hb h.1.room (List.Subset.refl gone)
        (fun _ hm => .inr hm) (.inl hzero) (Nat.le_of_lt_succ hlive))

/-! ## Whole removals -/

lemma deleteObject_deletes (bound : Nat) : Deletes deleteObject bound := by
  intro ir held loose gone id obj h ho hrefs _
  exact .step rfl (deleteUpTo_deletes _ ir held loose gone id obj h ho hrefs (Nat.lt_succ_self _))

/-- A block can be removed whatever refers to it. -/
lemma deleteObject_block (h : ir.Steady held loose gone) (hb : ir.block? id = some block)
    (hroom : ir.objects.allocated < UInt32.size) :
    Gives (deleteObject id) ir fun _ later => later.Steady held loose (id :: gone) ∧ ir.Trimmed loose later := by
  refine .step rfl (deleteUpTo_block hb (deleteBlock_steady (deleteUpTo_deletes _) h (.refl ir id) hb
    (fun _ => hroom) (subset_cons_self id gone) (fun _ hm => mem_cons.mp hm) (.inr (.head _)) (Nat.le_refl _)))

end Build

end Shading
