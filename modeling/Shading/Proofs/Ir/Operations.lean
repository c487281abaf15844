import Shading.Proofs.Ir.Release

/-!
# What the operations of a builder do

`Builder.shape?` is what an object is, but for links.  Each operation is
described by what it does to the shapes, the instructions and the order of the
blocks, and it keeps the account (`Builder.Sound`).  Where its operands are
right, an operation fails only for want of room (`Builder.OutOfRoom`).
-/

namespace Shading

open Arena List Option

variable {block : Block} {inst : InstId} {closing gone held opds order : List ObjectId} {ir : Builder}
  {loose : List InstId} {id : ObjectId} {kind : ObjectKind}
  {held' : List ObjectId} {instr : Instruction} {slot : Nat} {tgt : ObjectId} {right : Prop} {error : IrError}

namespace Builder

variable {mid later : Builder} {obj : Object}

/-! ## Shapes -/

/-- What an object is, but for the links of a block. -/
def shape? (ir : Builder) (id : ObjectId) : Option ObjectKind := (ir.kind? id).map ObjectKind.unlinked

lemma shape?_of_object? (h : ir.object? id = some obj) : ir.shape? id = some obj.kind.unlinked := by
  rw [shape?, kind?_of_object? h, map_some]

lemma object?_of_shape? (h : ir.shape? id = some kind) : ∃ obj, ir.object? id = some obj ∧
    obj.kind.unlinked = kind := by
  obtain ⟨stored, hk, rfl⟩ := map_eq_some_iff.mp h
  obtain ⟨refs, ho⟩ := object?_eq_of_kind? hk
  exact ⟨_, ho, rfl⟩

lemma kind?_of_shape? (h : ir.shape? id = some kind) (hb : kind.block? = none) : ir.kind? id = some kind := by
  obtain ⟨⟨stored, refs⟩, ho, rfl⟩ := object?_of_shape? h
  rw [kind?_of_object? ho]
  cases stored with
  | block inside => cases hb
  | _ => rfl

lemma block?_of_shape? (h : ir.shape? id = some (.block block)) :
    ∃ block', ir.block? id = some block' ∧ block'.unlinked = block := by
  obtain ⟨⟨kind, refs⟩, ho, heq⟩ := object?_of_shape? h
  cases kind with
  | block inside => exact ⟨inside, block?_of_kind? (kind?_of_object? ho), ObjectKind.block.inj heq⟩
  | _ => cases heq

lemma shape?_of_block? (h : ir.block? id = some block) : ir.shape? id = some (.block block.unlinked) := by
  rw [shape?, kind?_of_block? h]
  rfl

lemma links?_of_shape? (h : ir.shape? id = some (.block block)) : ∃ links, ir.links? id = some links := by
  obtain ⟨inside, hb, -⟩ := block?_of_shape? h
  exact ⟨(inside.prev?, inside.next?), by rw [links?, hb]; rfl⟩

lemma shape?_setObject (h : ir.object? id = some obj) (f : Object → Object) (other : ObjectId) :
    (ir.setObject id f).shape? other = if other = id then some (f obj).kind.unlinked else ir.shape? other := by
  rw [shape?, kind?, object?_setObject h]
  split <;> rfl

/-- A block that is changed elsewhere keeps its links. -/
lemma links?_setBlock {old : Block} (hb : ir.block? id = some old)
    (h : (block.prev?, block.next?) = (old.prev?, old.next?))
    (other : ObjectId) : (ir.setBlock id block).links? other = ir.links? other := by
  rw [links?, block?_setBlock hb, links?]
  split
  · rename_i heq
    rw [heq, hb, map_some, map_some, h]
  · rfl

/-- A reference more to each of some objects. -/
def retained (ir : Builder) (ids : List ObjectId) : Builder :=
  ids.foldl (fun ir id => ir.setObject id fun obj => { obj with refs := obj.refs + 1 }) ir

lemma shape?_unlinked (id : ObjectId) : ir.unlinked.kind? id = ir.shape? id := by
  have hobj : ir.unlinked.object? id = (ir.object? id).map Object.unlinked := get?_map Object.unlinked id
  rw [kind?, hobj, shape?, kind?, Option.map_map, Option.map_map]
  rfl

/-- Links, counts and numbers may differ. -/
structure Same (ir later : Builder) : Prop where
  shape : ∀ id, later.shape? id = ir.shape? id
  instructions : later.instructions = ir.instructions
  slots : later.dataSlots = ir.dataSlots
  entry : later.entryBlock? = ir.entryBlock?
  hadEntry : later.hadEntry = ir.hadEntry
  immediates : later.immediates = ir.immediates

lemma Same.refl (ir : Builder) : ir.Same ir := ⟨fun _ => rfl, rfl, rfl, rfl, rfl, rfl⟩

lemma Same.trans (h : ir.Same mid) (h' : mid.Same later) : ir.Same later :=
  ⟨fun id => (h'.shape id).trans (h.shape id), h'.instructions.trans h.instructions, h'.slots.trans h.slots,
    h'.entry.trans h.entry, h'.hadEntry.trans h.hadEntry, h'.immediates.trans h.immediates⟩

lemma Same.of_unlinked (h : later.unlinked = ir.unlinked) : ir.Same later := by
  obtain ⟨-, -, hinsts, hslots⟩ := counts_of_unlinked h
  have hentry : later.unlinked.entryBlock? = ir.unlinked.entryBlock? := by rw [h]
  have hhad : later.unlinked.hadEntry = ir.unlinked.hadEntry := by rw [h]
  have himms : later.unlinked.immediates = ir.unlinked.immediates := by rw [h]
  exact ⟨fun id => by rw [← shape?_unlinked, h, shape?_unlinked], hinsts, hslots, hentry, hhad, himms⟩

/-- A change that keeps what the object is. -/
lemma Same.setObject (ho : ir.object? id = some obj) {f : Object → Object} (hf : (f obj).kind = obj.kind) :
    ir.Same (ir.setObject id f) := by
  refine ⟨fun other => ?_, rfl, rfl, rfl, rfl, rfl⟩
  rw [shape?_setObject ho, hf]
  split
  · rename_i heq
    rw [heq, shape?_of_object? ho]
  · rfl

/-- There is an object more. -/
structure Adds (ir : Builder) (id : ObjectId) (kind : ObjectKind) (later : Builder) : Prop where
  fresh : ir.object? id = none
  shape : ∀ other, later.shape? other = if other = id then some kind else ir.shape? other
  instructions : later.instructions = ir.instructions
  slots : later.dataSlots = ir.dataSlots
  entry : later.entryBlock? = ir.entryBlock?
  hadEntry : later.hadEntry = ir.hadEntry
  immediates : later.immediates = ir.immediates

lemma Adds.trans (h : ir.Adds id kind mid) (h' : mid.Same later) : ir.Adds id kind later :=
  ⟨h.fresh, fun other => (h'.shape other).trans (h.shape other), h'.instructions.trans h.instructions,
    h'.slots.trans h.slots, h'.entry.trans h.entry, h'.hadEntry.trans h.hadEntry, h'.immediates.trans h.immediates⟩

lemma Adds.self (h : ir.Adds id kind later) : later.shape? id = some kind := (h.shape id).trans (if_pos rfl)

lemma Adds.shape?_of_some {other : ObjectId} {old : ObjectKind} (h : ir.Adds id kind later)
    (ho : ir.shape? other = some old) : later.shape? other = some old := by
  rw [h.shape, if_neg, ho]
  rintro rfl
  obtain ⟨obj, hobj, -⟩ := object?_of_shape? ho
  rw [h.fresh] at hobj
  cases hobj

/-- There is an instruction more, at the end of a block. -/
structure Appends (ir : Builder) (target : ObjectId) (inst : InstId) (instr : Instruction) (later : Builder) :
    Prop where
  fresh : ir.instruction? inst = none
  instruction : ∀ other, later.instruction? other = if other = inst then some instr else ir.instruction? other
  shape : ∃ block, ir.shape? target = some (.block block) ∧ ∀ other, later.shape? other =
    if other = target then some (.block { block with slots := block.slots ++ [some inst] }) else ir.shape? other
  slots : later.dataSlots = ir.dataSlots
  entry : later.entryBlock? = ir.entryBlock?
  immediates : later.immediates = ir.immediates

/-! ## Room -/

/-- A limit is set, or there were as many objects or instructions as handles. -/
def Full (ir : Builder) : Prop :=
  (ir.objects.limit?.isSome = true ∨ maxSlots ≤ ir.objects.allocated) ∨
    (ir.instructions.limit?.isSome = true ∨ maxSlots ≤ ir.instructions.allocated)

/-- There is no room for what an operation makes.  It may have used up a
number for a register. -/
def OutOfRoom (ir : Builder) (error : IrError) (later : Builder) : Prop :=
  error = .outOfMemory ∧ ir.Full ∧ ∃ count, later = { ir with registerCount := count }

/-- An operation changes nothing if it is not right or if there is no room. -/
def Refused (ir : Builder) (right : Prop) (error : IrError) (later : Builder) : Prop :=
  later = ir ∧ (right → error = .outOfMemory ∧ ir.Full)

lemma Refused.outOfRoom (h : ir.Refused right error later) (hr : right) : ir.OutOfRoom error later :=
  ⟨(h.2 hr).1, (h.2 hr).2, ir.registerCount, h.1⟩

lemma refused_of_not (h : ¬right) : ir.Refused right error ir := ⟨rfl, fun hr => absurd hr h⟩

end Builder

/-- An instruction in a slot, which may be emptied, splits the code of its block. -/
lemma Block.instructions_split (block : Block) {slot : Nat} {inst : InstId}
    (hs : block.slots[slot]? = some (some inst)) :
    ∃ before after, block.instructions = before ++ inst :: after ∧
      (block.slots.set slot none).filterMap (fun slot => slot) = before ++ after := by
  obtain ⟨hlt, hget⟩ := List.getElem?_eq_some_iff.mp hs
  have hsplit : block.slots = block.slots.take slot ++ some inst :: block.slots.drop (slot + 1) := by
    rw [← hget, ← List.drop_eq_getElem_cons hlt, List.take_append_drop]
  refine ⟨(block.slots.take slot).filterMap (fun slot => slot), (block.slots.drop (slot + 1)).filterMap
    fun slot => slot, ?_, ?_⟩
  · conv_lhs => rw [Block.instructions, hsplit]
    rw [filterMap_append]
    rfl
  · rw [set_eq_take_append_cons_drop, if_pos hlt, filterMap_append, filterMap_cons_none rfl]

/-! ## The account -/

namespace Builder

lemma Sound.perm (h : ir.Sound held loose closing gone) (hp : held.Perm held') :
    ir.Sound held' loose closing gone := by
  refine h.recount rfl rfl (fun id => ?_) (fun id _ _ => ?_) h.registers h.entry
  · exact Nat.le_of_eq (by rw [hp.count_eq])
  · rw [hp.count_eq]

lemma Sound.setBlock {loose' : List InstId} {old : Block}
    (h : ir.Sound held loose closing gone) (hb : ir.block? id = some old)
    (hplaced : ∀ inst, block.instructions.count inst + loose'.count inst = old.instructions.count inst +
      loose.count inst)
    (hcount : ∀ other, ir.nameCount loose' closing other + held'.count other =
      ir.nameCount loose closing other + held.count other) :
    (ir.setBlock id block).Sound held' loose' closing gone := by
  obtain ⟨refs, ho⟩ := object?_of_block? hb
  refine h.setObject ho rfl nofun hplaced ?_ fun other _ => hcount other
  rw [hcount, ← h.refs id _ ho]

/-- A loose instruction is placed in a block and takes over references. -/
lemma Sound.place (h : ir.Sound (instr.operands ++ held) (inst :: loose) closing gone)
    (hi : ir.instruction? inst = some instr) (hb : ir.block? id = some block) :
    (ir.setBlock id { block with slots := block.slots ++ [some inst] }).Sound held loose closing gone := by
  have hnot : inst ∉ loose := h.not_mem_loose
  refine h.setBlock hb (fun other => ?_) fun other => ?_
  · simp only [Block.instructions, filterMap_append, filterMap_cons, filterMap_nil, count_append,
      count_cons, count_nil]
    omega
  · rw [nameCount_loosen hi hnot closing other, count_append]
    omega

lemma Sound.unplace (h : ir.Sound held loose closing gone) (hi : ir.instruction? inst = some instr)
    (hb : ir.block? id = some block) (hs : block.slots[slot]? = some (some inst)) (fixup : Bool) :
    (ir.setBlock id { block with slots := block.slots.set slot none, requiresFixup := fixup }).Sound
      (instr.operands ++ held) (inst :: loose) closing gone := by
  obtain ⟨before, after, hold, hnew⟩ := block.instructions_split hs
  have hnot : inst ∉ loose := by
    intro hm
    obtain ⟨refs, ho⟩ := object?_of_block? hb
    have hdisj := disjoint_of_nodup_append (h.nodup_placed ho).2
    refine hdisj (a := inst) ?_ hm
    change inst ∈ block.instructions
    rw [hold]
    simp
  refine h.setBlock hb (fun other => ?_) fun other => ?_
  · rw [Block.instructions, hnew, hold, count_append, count_append, count_cons, count_cons]
    omega
  · rw [nameCount_loosen hi hnot closing other, count_append]
    omega

end Builder

/-! ## Compaction -/

lemma Arena.map_eq_self {α : Type} {ar : Arena α} {f : α → α} (h : ∀ handle val, ar.get? handle = some val →
    f val = val) : ar.map f = ar := by
  unfold map
  congr 1
  refine Array.ext_getElem? fun index => ?_
  rw [Array.getElem?_map]
  cases hslot : ar.slots[index]? with
  | none => rfl
  | some slot =>
    obtain ⟨generation, value?⟩ := slot
    cases value? with
    | none => rfl
    | some val =>
      have hval := h ⟨index, generation⟩ val (get?_eq_some.mpr ⟨_, hslot, rfl, rfl⟩)
      rw [Option.map_some, Option.map_some, hval]

namespace Block

lemma instructions_fixup (block : Block) : block.fixup.instructions = block.instructions := by
  unfold fixup
  split
  · rw [instructions, instructions, filterMap_filter]
    congr 1
    funext slot
    cases slot <;> rfl
  · rfl

lemma requiresFixup_fixup (block : Block) : block.fixup.requiresFixup = false := by
  unfold fixup
  split
  · rfl
  · rename_i hclean
    exact Bool.eq_false_iff.mpr hclean

lemma fixup_fixup (block : Block) : block.fixup.fixup = block.fixup := by
  rw [fixup, if_neg (Bool.eq_false_iff.mp block.requiresFixup_fixup)]

/-- A block with an empty slot is marked for compaction. -/
def Marked (block : Block) : Prop := block.requiresFixup = false → none ∉ block.slots

lemma Marked.fixup {block : Block} (h : block.Marked) : block.fixup.Marked := by
  unfold Block.fixup
  split
  · simp [Marked]
  · exact h

end Block

/-- A block is compacted. -/
def ObjectKind.fixup : ObjectKind → ObjectKind
  | .block inside => .block inside.fixup
  | kind => kind

/-- The object with its block compacted. -/
def Object.fixup (obj : Object) : Object := { obj with kind := obj.kind.fixup }

namespace Builder

/-- The builder with all blocks compacted. -/
def compacted (ir : Builder) : Builder := { ir with objects := ir.objects.map Object.fixup }

lemma object?_compacted (id : ObjectId) : ir.compacted.object? id = (ir.object? id).map Object.fixup :=
  Arena.get?_map _ id

lemma kind?_compacted (id : ObjectId) : ir.compacted.kind? id = (ir.kind? id).map ObjectKind.fixup := by
  rw [kind?, object?_compacted, kind?, Option.map_map, Option.map_map]
  rfl

lemma block?_compacted (id : ObjectId) : ir.compacted.block? id = (ir.block? id).map Block.fixup := by
  rw [block?, kind?_compacted, block?]
  cases ir.kind? id with
  | none => rfl
  | some kind => cases kind <;> rfl

lemma setBlock_compacted (hb : ir.block? id = some block) :
    (ir.setBlock id block.fixup).compacted = ir.compacted := by
  obtain ⟨refs, ho⟩ := object?_of_block? hb
  unfold setBlock setObject compacted
  congr 1
  refine Arena.map_modify Object.fixup fun obj hobj => ?_
  obtain rfl := Option.some.inj (ho.symm.trans hobj)
  exact congrArg (fun inside => (⟨.block inside, refs⟩ : Object)) block.fixup_fixup

lemma compacted_of_fixed (h : ∀ id block, ir.block? id = some block → block.fixup = block) :
    ir.compacted = ir := by
  unfold compacted
  rw [Arena.map_eq_self]
  intro id obj ho
  have hk := kind?_of_object? ho
  obtain ⟨kind, refs⟩ := obj
  cases kind with
  | block block =>
    exact congrArg (fun inside => (⟨.block inside, refs⟩ : Object)) (h id block (block?_of_kind? hk))
  | _ => rfl

end Builder

namespace Build

open Builder

/-! ## Checks -/

section Checks

variable {α β : Type}

/-- A look at the state, which fails if what it looks for is not there. -/
def Checks (check : Build α) (ir : Builder) (found : α → Prop) : Prop :=
  Ends check ir (fun a later => later = ir ∧ found a) fun _ later => later = ir ∧ ∀ a, ¬found a

/-- A check comes first. -/
lemma Ends.check {x : Build α} {f : α → Build β} {found : α → Prop} {good : β → Builder → Prop}
    {bad : IrError → Builder → Prop}
    (hx : Checks x ir found) (hbad : (∀ a, ¬found a) → ∀ error, bad error ir)
    (hf : ∀ a, found a → Ends (f a) ir good bad) : Ends (x >>= f) ir good bad := by
  refine (Ends.mono hx (fun _ _ hgood => hgood) fun error _ hnot => hnot.1 ▸ hbad hnot.2 error).bind ?_
  rintro a _ ⟨rfl, hfound⟩
  exact hf a hfound

lemma object_checks (ir : Builder) (id : ObjectId) : Checks (object id) ir fun obj => ir.object? id =
    some obj := by
  cases ho : ir.object? id with
  | some obj => exact Ends.of_gives (.of_run (object_run ho) ⟨rfl, rfl⟩)
  | none =>
    unfold object
    refine Ends.step rfl ?_
    rw [ho]
    exact .of_error rfl ⟨rfl, nofun⟩

lemma register_checks (ir : Builder) (id : ObjectId) : Checks (register id) ir fun reg => ir.kind? id =
    some (.register reg) := by
  refine Ends.check (object_checks ir id) (fun hnot _ => ⟨rfl, fun reg hk => ?_⟩) fun obj ho => ?_
  · obtain ⟨refs, ho⟩ := object?_eq_of_kind? hk
    exact hnot _ ho
  · rw [kind?_of_object? ho]
    cases obj.kind with
    | register reg => exact .of_gives (.pure ⟨rfl, rfl⟩)
    | _ => exact .of_error rfl ⟨rfl, nofun⟩

lemma block_checks (ir : Builder) (id : ObjectId) : Checks (Build.block id) ir fun block => ir.block? id =
    some block := by
  refine Ends.check (object_checks ir id) (fun hnot _ => ⟨rfl, fun block hb => ?_⟩) fun obj ho => ?_
  · obtain ⟨refs, ho⟩ := object?_of_block? hb
    exact hnot _ ho
  · rw [block?, kind?_of_object? ho]
    cases obj.kind with
    | block inside => exact .of_gives (.pure ⟨rfl, rfl⟩)
    | _ => exact .of_error rfl ⟨rfl, fun _ hb => by cases hb⟩

lemma operands_checks (ir : Builder) (opds : List ObjectId) : Checks (opds.forM fun opd => discard (object opd)) ir
    fun _ => ∀ opd ∈ opds, ∃ kind, ir.shape? opd = some kind := by
  induction opds with
  | nil => exact Ends.of_gives (.pure ⟨rfl, forall_mem_nil _⟩)
  | cons opd rest ih =>
    have hcheck : Checks (discard (object opd)) ir fun _ => ∃ kind, ir.shape? opd = some kind := by
      refine Ends.check (object_checks ir opd) (fun hnot _ => ⟨rfl, fun _ hshape => ?_⟩) fun obj ho =>
        .of_gives (.pure ⟨rfl, _, shape?_of_object? ho⟩)
      obtain ⟨kind, hk⟩ := hshape
      obtain ⟨obj, ho, -⟩ := object?_of_shape? hk
      exact hnot obj ho
    rw [List.forM]
    refine Ends.check hcheck (fun hnot _ => ⟨rfl, fun a hall => hnot a (hall opd (.head _))⟩) fun _ hlive =>
      Ends.mono ih ?_ ?_
    · exact fun _ _ hrest => ⟨hrest.1, forall_mem_cons.mpr ⟨hlive, hrest.2⟩⟩
    · exact fun _ _ hnot => ⟨hnot.1, fun a hall => hnot.2 a (forall_mem_cons.mp hall).2⟩

end Checks

/-! ## Objects -/

/-- What an object that is stored leaves as it was. -/
structure Stores (ir : Builder) (id : ObjectId) (kind : ObjectKind) (later : Builder) : Prop where
  alloc : ir.objects.alloc ⟨kind, 0⟩ = some (id, later.objects)
  fresh : ir.object? id = none
  self : later.object? id = some ⟨kind, 0⟩
  others : ∀ other, other ≠ id → later.object? other = ir.object? other
  rest : later = { ir with objects := later.objects }
  wellFormed : later.objects.WellFormed
  allocated : later.objects.allocated = ir.objects.allocated + 1

lemma allocObject_stores_or_full (hw : ir.objects.WellFormed) (kind : ObjectKind) :
    Ends (allocObject kind) ir (fun id => Stores ir id kind) (ir.Refused right) := by
  unfold allocObject
  refine .step rfl ?_
  cases halloc : ir.objects.alloc ⟨kind, 0⟩ with
  | none =>
    have hfull := (alloc_none halloc).imp_right (Nat.le_trans · hw.size)
    exact .of_error rfl ⟨rfl, fun _ => ⟨rfl, .inl hfull⟩⟩
  | some res =>
    obtain ⟨id, objects⟩ := res
    exact .of_gives (.step rfl (.pure ⟨halloc, get?_alloc_fresh hw halloc, get?_alloc_self hw halloc,
      fun other hne => get?_alloc_of_ne hw halloc hne, rfl, hw.alloc halloc, (allocated_alloc hw halloc).1⟩))

namespace Stores

variable {later : Builder}

lemma adds (h : Stores ir id kind later) : ir.Adds id kind.unlinked later := by
  refine ⟨h.fresh, fun other => ?_, by rw [h.rest], by rw [h.rest], by rw [h.rest], by rw [h.rest], by rw [h.rest]⟩
  split
  · rename_i heq
    rw [heq]
    exact shape?_of_object? h.self
  · rename_i hne
    rw [shape?, kind?, h.others other hne, shape?, kind?]

/-- An operand is not linked. -/
lemma ordered (h : Stores ir id kind later) (horder : ir.Ordered order) (hblk : kind.block? = none) :
    later.Ordered order := by
  refine horder.congr (fun other => ?_) (by rw [h.rest]) (by rw [h.rest])
  rw [links?, block?, kind?, links?, block?, kind?]
  by_cases hother : other = id
  · rw [hother, h.self, h.fresh, map_some, bind_some, hblk]
    rfl
  · rw [h.others other hother]

/-- A new block is in the list only once it is linked. -/
lemma listed (h : Stores ir id kind later) (horder : ir.Ordered order) : later.Listed order ∧ id ∉ order ∧
    ∀ other block, later.block? other = some block → other = id ∨ other ∈ order := by
  have hblk (other : ObjectId) (hne : other ≠ id) : later.block? other = ir.block? other := by
    rw [block?, kind?, h.others other hne, block?, kind?]
  have hnot : id ∉ order := by
    intro hm
    obtain ⟨block, hb⟩ := horder.block hm
    rw [block?, kind?, h.fresh] at hb
    cases hb
  refine ⟨horder.toListed.congr (fun other hm => ?_) (by rw [h.rest]) (by rw [h.rest]), hnot,
    fun other block hb => ?_⟩
  · rw [links?, hblk other fun heq => hnot (heq ▸ hm), links?]
  · by_cases hother : other = id
    · exact .inl hother
    · exact .inr (horder.complete other block ((hblk other hother).symm.trans hb))

section Sound

variable (hnew : Stores ir id kind later) (hroom : gone ≠ [] → ir.objects.allocated + 1 < UInt32.size)

include hnew hroom

lemma sound (h : ir.Sound held loose closing gone) (hplaced : kind.placed = []) :
    later.Sound held loose (id :: closing) gone := by
  rw [hnew.rest]
  exact h.allocObject hnew.alloc (fun hg => hnew.allocated ▸ hroom hg) hplaced

lemma operand (h : ir.Sound held loose [] gone) (horder : ir.Ordered order) (hnames : kind.names = [])
    (hblk : kind.block? = none) : later.Sound held loose [] gone ∧ later.Ordered order ∧
    ir.Adds id kind later := by
  have hcut : kind.unlinked = kind := by
    cases kind with
    | block inside => cases hblk
    | _ => rfl
  have hplaced : kind.placed = [] := by
    cases kind with
    | block inside => cases hblk
    | _ => rfl
  have hs : later.Sound (kind.names ++ held) loose [id] gone := by
    rw [hnames]
    exact hnew.sound hroom h hplaced
  refine ⟨hs.settle hnew.self not_mem_nil fun name hm => ?_, hnew.ordered horder hblk, hcut ▸ hnew.adds⟩
  dsimp only at hm
  rw [hnames] at hm
  cases hm

end Sound

end Stores

/-! ## References -/

lemma retain_run {obj : Object} (ho : ir.object? id = some obj) :
    (retain id).run.run ir = (.ok (), ir.retained [id]) :=
  ExceptT.run_bind_of_ok (object_run ho)

lemma retain_gives (h : ir.Sound held loose closing gone) (ho : ir.object? id = some obj) :
    Gives (retain id) ir fun _ later => later.Sound (id :: held) loose closing gone ∧ ir.Kept later ∧
      ir.Same later :=
  .of_run (retain_run ho) ⟨h.retain ho, .setRefs ho (· + 1), .setObject ho rfl⟩

lemma retainAll_run (hlive : ∀ opd ∈ opds, ∃ kind, ir.shape? opd = some kind) :
    (opds.forM retain).run.run ir = (.ok (), ir.retained opds) ∧ ir.Kept (ir.retained opds) ∧
    ir.Same (ir.retained opds) ∧ ∀ {held loose closing gone}, ir.Sound held loose closing gone →
      (ir.retained opds).Sound (opds ++ held) loose closing gone := by
  induction opds generalizing ir with
  | nil => exact ⟨rfl, .refl ir, .refl ir, fun h => h⟩
  | cons opd rest ih =>
    obtain ⟨kind, hshape⟩ := hlive opd (.head _)
    obtain ⟨obj, ho, -⟩ := object?_of_shape? hshape
    have hsame : ir.Same (ir.retained [opd]) := .setObject ho rfl
    obtain ⟨hrun, hkept, hsame', hsound⟩ := ih fun other hm => by
      obtain ⟨kind, hshape⟩ := hlive other (.tail _ hm)
      exact ⟨kind, (hsame.shape other).trans hshape⟩
    refine ⟨?_, (Kept.setRefs ho (· + 1)).trans hkept, hsame.trans hsame', fun h =>
      (hsound (h.retain ho)).perm perm_middle⟩
    rw [List.forM, ExceptT.run_bind_of_ok (retain_run ho)]
    exact hrun

/-! ## Operands -/

/-- A new register is stored under the next number, which is used up even if
there is no room. -/
lemma allocRegister_stores (hw : ir.objects.WellFormed) (registerClass : RegisterClass) (width : Nat) :
    Ends (allocRegister registerClass width) ir
      (fun id => Stores { ir with registerCount := ir.registerCount + 1 } id
        (.register ⟨ir.registerCount + 1, registerClass, width⟩))
      (Refused { ir with registerCount := ir.registerCount + 1 } True) :=
  .step rfl (.step rfl (@allocObject_stores_or_full { ir with registerCount := ir.registerCount + 1 } True hw _))

lemma newMemory_stores (hw : ir.objects.WellFormed) (base : ObjectId) (index? : Option ObjectId) (off : Int32) :
    Ends (newMemory base index? off) ir (fun id later => ∃ mid, Stores ir id (.memory ⟨base, index?, off⟩) mid ∧
      (∀ name ∈ base :: index?.toList, ∃ reg, ir.kind? name = some (.register reg)) ∧
      later = mid.retained (base :: index?.toList))
      (ir.Refused (∀ name ∈ base :: index?.toList, ∃ reg, ir.kind? name = some (.register reg))) := by
  have hlive {id name : ObjectId} {kind : ObjectKind} {mid : Builder} {reg : Register}
    (hnew : Stores ir id kind mid)
      (hr : ir.kind? name = some (.register reg)) : ∃ kind, mid.shape? name = some kind :=
    ⟨_, hnew.adds.shape?_of_some (by rw [shape?, hr]; rfl)⟩
  refine .check (register_checks ir base) (fun hnot _ => refused_of_not fun hall => ?_) fun reg hr => ?_
  · obtain ⟨reg, hr⟩ := hall base (.head _)
    exact hnot reg hr
  cases index? with
  | none =>
    refine (allocObject_stores_or_full hw _).bind fun id mid hnew => ?_
    obtain ⟨kind, hk⟩ := hlive hnew hr
    obtain ⟨obj, ho, -⟩ := object?_of_shape? hk
    exact .of_gives (.step (retain_run ho) (.pure ⟨mid, hnew, forall_mem_singleton.mpr ⟨reg, hr⟩, rfl⟩))
  | some index =>
    refine .check (register_checks ir index) (fun hnot _ => refused_of_not fun hall => ?_) fun reg' hr' => ?_
    · obtain ⟨reg', hr'⟩ := hall index (.tail _ (mem_singleton_self index))
      exact hnot reg' hr'
    refine (allocObject_stores_or_full hw _).bind fun id mid hnew => ?_
    obtain ⟨kind, hk⟩ := hlive hnew hr
    obtain ⟨kind', hk'⟩ := hlive hnew hr'
    obtain ⟨obj, ho, -⟩ := object?_of_shape? hk
    have hsame : mid.Same (mid.retained [base]) := .setObject ho rfl
    obtain ⟨obj', ho', -⟩ := object?_of_shape? ((hsame.shape index).trans hk')
    exact .of_gives (.step (retain_run ho) (.step (retain_run ho') (.pure ⟨mid, hnew,
      forall_mem_cons.mpr ⟨⟨reg, hr⟩, forall_mem_singleton.mpr ⟨reg', hr'⟩⟩, rfl⟩)))

section Alloc

variable (hroom : gone ≠ [] → ir.objects.allocated + 1 < UInt32.size) (h : ir.Sound held loose [] gone)

include hroom h

variable (horder : ir.Ordered order)

include horder

lemma allocRegister_ends (registerClass : RegisterClass) (width : Nat) :
    Ends (allocRegister registerClass width) ir (fun id later => later.Sound held loose [] gone ∧
      later.Ordered order ∧
      ir.Adds id (.register ⟨ir.registerCount + 1, registerClass, width⟩) later) ir.OutOfRoom := by
  let counted : Builder := { ir with registerCount := ir.registerCount + 1 }
  have hs : counted.Sound held loose [] gone := h.congr rfl rfl rfl rfl rfl
  refine (allocRegister_stores h.objects registerClass width).mono (fun id later hnew => ?_)
    fun err later hbad => ?_
  · obtain ⟨hs', horder', hadds⟩ := hnew.operand hroom hs (horder.congr (fun _ => rfl) rfl rfl) rfl rfl
    exact ⟨hs', horder', { hadds with }⟩
  · obtain ⟨rfl, hfull⟩ := hbad
    exact ⟨(hfull trivial).1, (hfull trivial).2, _, rfl⟩

/-- The new operand holds a reference to each register before it counts. -/
lemma newMemory_ends {base : ObjectId} {index? : Option ObjectId} (off : Int32) :
    Ends (newMemory base index? off) ir (fun id later => later.Sound held loose [] gone ∧ later.Ordered order ∧
      ir.Adds id (.memory ⟨base, index?, off⟩) later)
      (ir.Refused (∀ name ∈ (ObjectKind.memory ⟨base, index?, off⟩).names, ∃ reg,
        ir.kind? name = some (.register reg))) := by
  refine (newMemory_stores h.objects base index? off).mono ?_ fun _ _ hbad => hbad
  rintro id _ ⟨mid, hnew, hnames, rfl⟩
  have hlive (name : ObjectId) (hm : name ∈ base :: index?.toList) :
      ∃ reg, mid.shape? name = some (.register reg) := by
    obtain ⟨reg, hr⟩ := hnames name hm
    exact ⟨reg, hnew.adds.shape?_of_some (by rw [shape?, hr]; rfl)⟩
  obtain ⟨-, hkept, hsame, hsound⟩ := retainAll_run fun name hm => (hlive name hm).elim fun _ hr => ⟨_, hr⟩
  obtain ⟨⟨kind, refs⟩, ho, hkind⟩ := object?_of_shape? ((hsame.shape id).trans hnew.adds.self)
  obtain rfl : kind = .memory ⟨base, index?, off⟩ := by
    cases kind with
    | memory inside => exact hkind
    | _ => cases hkind
  refine ⟨(hsound (hnew.sound hroom h rfl)).settle ho not_mem_nil fun name hm => ?_,
    hkept.ordered (hnew.ordered horder rfl), hnew.adds.trans hsame⟩
  obtain ⟨reg, hr⟩ := hlive name hm
  exact ⟨reg, kind?_of_shape? ((hsame.shape name).trans hr) rfl⟩

lemma internImmediate_ends (opd : ImmediateOperand) :
    Ends (internImmediate opd) ir (fun id later => later.Sound held loose [] gone ∧ later.Ordered order ∧
      (later = ir ∧ ir.immediates.lookup opd.key = some id ∧ ir.objects.contains id = true ∨
        ∃ mid, ir.Adds id (.immediate opd) mid ∧ later = { mid with
          immediates := (opd.key, id) :: ir.immediates.filter (·.1 ≠ opd.key) })) (ir.Refused True) := by
  unfold internImmediate
  refine .step rfl ?_
  split
  · rename_i id hfound
    exact .of_gives (.pure ⟨h, horder, .inl ⟨rfl, filter_eq_some_iff.mp hfound⟩⟩)
  · refine (allocObject_stores_or_full h.objects _).bind fun id mid hnew => .of_gives (.step rfl (.pure ?_))
    obtain ⟨hs, hord, hadds⟩ := hnew.operand hroom h horder rfl rfl
    exact ⟨hs.congr rfl rfl rfl rfl rfl, hord.congr (fun _ => rfl) rfl rfl,
      .inr ⟨mid, hadds, by rw [← hadds.immediates]⟩⟩

/-! ## Blocks -/

lemma allocBlock_ends (kind : BlockKind) :
    Ends (allocBlock kind) ir (fun id later => later.Sound held loose [] gone ∧ later.Listed order ∧
      id ∉ order ∧ (∀ other block, later.block? other = some block → other = id ∨ other ∈ order) ∧
      ir.Adds id (.block (.create (ir.blockCount + 1) kind)) later) (ir.Refused right) := by
  unfold allocBlock
  refine .step rfl ((allocObject_stores_or_full h.objects _).bind fun id mid hnew =>
    .of_gives (.step rfl (.pure ?_)))
  obtain ⟨hlisted, hnot, hcomplete⟩ := hnew.listed horder
  have hnames : mid.Sound ((ObjectKind.block (.create (ir.blockCount + 1) kind)).names ++ held) loose [id] gone :=
    hnew.sound hroom h rfl
  have hs' : mid.Sound held loose [] gone :=
    hnames.settle hnew.self not_mem_nil fun name hm => absurd hm not_mem_nil
  exact ⟨hs'.congr rfl rfl rfl rfl rfl, hlisted.congr (fun _ _ => rfl) rfl rfl, hnot, hcomplete,
    { hnew.adds with }⟩

lemma newBlock_ends :
    Ends newBlock ir (fun id later => later.Sound held loose [] gone ∧ later.Ordered (order ++ [id]) ∧
      ir.Adds id (.block (.create (ir.blockCount + 1) .basic)) later) (ir.Refused True) := by
  unfold newBlock
  refine (allocBlock_ends hroom h horder .basic).bind fun id mid hpost => .of_gives ?_
  obtain ⟨hs, hlisted, hnot, hcomplete, hadds⟩ := hpost
  obtain ⟨links, hlinks⟩ := links?_of_shape? hadds.self
  refine .bind (linkLast_gives hlisted hlinks hnot) ?_
  rintro - later ⟨hlisted', hcut⟩
  refine .pure ⟨hs.relink hcut, hlisted'.ordered hcut fun other block hb => ?_, hadds.trans (.of_unlinked hcut)⟩
  rw [mem_append, mem_singleton]
  exact (hcomplete other block hb).symm

lemma initEntry_ends :
    Ends initEntry ir (fun id later => later.Sound held loose [] gone ∧ later.Ordered (id :: order) ∧
      ∃ mid, ir.Adds id (.block (.create (ir.blockCount + 1) .entry)) mid ∧
        later = { mid with entryBlock? := some id, hadEntry := true }) (ir.Refused (ir.hadEntry = false)) := by
  unfold initEntry
  refine .step rfl ?_
  split
  · rename_i hhad
    exact .of_error rfl (refused_of_not (Bool.not_eq_false _ ▸ hhad))
  rename_i hhad
  have hentry : ir.hadEntry = false := Bool.eq_false_iff.mpr hhad
  refine (allocBlock_ends hroom h horder .entry).bind fun id mid hpost => .of_gives ?_
  obtain ⟨hs, hlisted, hnot, hcomplete, hadds⟩ := hpost
  obtain ⟨links, hlinks⟩ := links?_of_shape? hadds.self
  refine .bind (linkFirst_gives hlisted hlinks hnot) ?_
  rintro - late ⟨hlisted', hcut⟩
  have hord : late.Ordered (id :: order) := hlisted'.ordered hcut fun other block hb =>
    mem_cons.mpr (hcomplete other block hb)
  have hadds' := hadds.trans (.of_unlinked hcut)
  obtain ⟨obj, ho, -⟩ := object?_of_shape? hadds'.self
  refine .bind (retain_gives (hs.relink hcut) ho) ?_
  rintro - later ⟨hs', hkept, hsame⟩
  have hadds'' := hadds'.trans hsame
  exact .step rfl (.pure ⟨hs'.setEntry (hadds''.hadEntry.trans hentry),
    (hkept.ordered hord).congr (fun _ => rfl) rfl rfl, later, hadds'', rfl⟩)

end Alloc

lemma moveToEnd_ordered (horder : ir.Ordered order) (hb : ir.block? id = some block) :
    Gives (moveToEnd id) ir fun _ later => later.Ordered (order.erase id ++ [id]) ∧
      later.unlinked = ir.unlinked := by
  obtain ⟨pre, after, rfl, hnot, herase⟩ := horder.split hb
  unfold moveToEnd
  rw [herase]
  refine .step rfl ?_
  split
  · refine .bind (unlink_gives horder.toListed) ?_
    rintro - mid ⟨hlisted, hcut⟩
    obtain ⟨links, hlinks⟩ := links?_of_shape? (((Same.of_unlinked hcut).shape id).trans (shape?_of_block? hb))
    refine (linkLast_gives hlisted hlinks hnot).mono ?_
    rintro - later ⟨hlisted', hunlinked'⟩
    have heq := hunlinked'.trans hcut
    refine ⟨hlisted'.ordered heq fun other inside hin => ?_, heq⟩
    have hm := horder.complete other inside hin
    simp only [mem_append, mem_cons] at hm ⊢
    tauto
  · rename_i hlast
    have hend : after = [] := by
      rw [not_not, horder.last, getLast?_append_of_ne_nil _ (cons_ne_nil id after)] at hlast
      by_contra hne
      refine hnot (mem_append_right _ (mem_of_getLast? (l := after) ?_))
      rw [← hlast, getLast?_cons_of_ne_nil hne]
    subst hend
    rw [append_nil]
    exact .pure ⟨horder, rfl⟩

lemma moveToEnd_ends (horder : ir.Ordered order) (id : ObjectId) : Ends (moveToEnd id) ir
    (fun _ later => id ∈ order ∧ later.Ordered (order.erase id ++ [id]) ∧ later.unlinked = ir.unlinked)
    fun _ later => later = ir := by
  cases hb : ir.block? id with
  | some block => exact .of_gives ((moveToEnd_ordered horder hb).mono fun _ _ hlater =>
      ⟨horder.complete id block hb, hlater⟩)
  | none =>
    unfold moveToEnd
    refine .step rfl ?_
    split
    · have hunlink : Ends (unlink id) ir (fun _ _ => False) fun _ later => later = ir :=
        .check (block_checks ir id) (fun _ _ => rfl) fun block hblk => by rw [hb] at hblk; cases hblk
      exact hunlink.bind fun _ _ hfalse => hfalse.elim
    · rename_i hlast
      obtain ⟨block, hblk⟩ := horder.block (mem_of_getLast? (horder.last ▸ not_not.mp hlast))
      rw [hb] at hblk
      cases hblk

/-! ## Instructions -/

lemma emit_stores (ir : Builder) (tgt : ObjectId) (opcode : Opcode) (opds : List ObjectId) :
    Ends (emit tgt opcode opds) ir (fun inst later => ∃ instructions block,
      ir.instructions.alloc ⟨opcode, opds⟩ = some (inst, instructions) ∧ ir.block? tgt = some block ∧
      (∀ opd ∈ opds, ∃ kind, ir.shape? opd = some kind) ∧
      later = (retained { ir with instructions } opds).setBlock tgt
        { block with slots := block.slots ++ [some inst] }) fun error later => later = ir ∧
        ((∃ block, ir.block? tgt = some block) ∧
          opds.length ≤ maxOperands ∧ (∀ opd ∈ opds, ∃ kind, ir.shape? opd = some kind) →
            error = .outOfMemory ∧ ir.instructions.alloc ⟨opcode, opds⟩ = none) := by
  unfold emit
  split
  · rename_i hcount
    exact .of_error rfl ⟨rfl, fun hright => absurd hcount (Nat.not_lt.mpr hright.2.1)⟩
  refine .check (block_checks ir tgt) (fun hnot _ => ⟨rfl, fun hright => ?_⟩) fun block hb =>
    .check (operands_checks ir opds) (fun hnot _ => ⟨rfl, fun hright => absurd hright.2.2 (hnot ())⟩)
      fun _ hlive => .step rfl ?_
  · obtain ⟨block, hb⟩ := hright.1
    exact absurd hb (hnot block)
  cases halloc : ir.instructions.alloc ⟨opcode, opds⟩ with
  | none => exact .of_error rfl ⟨rfl, fun _ => ⟨rfl, rfl⟩⟩
  | some res =>
    have hlive' : ∀ opd ∈ opds, ∃ kind, ({ ir with instructions := res.2 } : Builder).shape? opd = some kind :=
      hlive
    obtain ⟨hrun, hkept, -⟩ := retainAll_run hlive'
    exact .of_gives (.step rfl (.step hrun (.step (modifyBlock_run ((hkept.block tgt).trans hb) _)
      (.pure ⟨_, block, rfl, hb, hlive, rfl⟩))))

lemma emit_ends {opcode : Opcode} (h : ir.Sound held loose [] gone) (horder : ir.Ordered order) :
    Ends (emit tgt opcode opds) ir (fun inst later => later.Sound held loose [] gone ∧ later.Ordered order ∧
      ir.Appends tgt inst ⟨opcode, opds⟩ later) (ir.Refused ((∃ block, ir.block? tgt = some block) ∧
        opds.length ≤ maxOperands ∧ ∀ opd ∈ opds, ∃ kind, ir.shape? opd = some kind)) := by
  refine (emit_stores ir tgt opcode opds).mono ?_ fun _ _ hbad => ⟨hbad.1, fun hright =>
    ⟨(hbad.2 hright).1, .inr ((alloc_none (hbad.2 hright).2).imp_right (Nat.le_trans · h.instructions.size))⟩⟩
  rintro inst _ ⟨instructions, block, halloc, hb, hlive, rfl⟩
  have hlive' : ∀ opd ∈ opds, ∃ kind, ({ ir with instructions } : Builder).shape? opd = some kind := hlive
  obtain ⟨-, hkept, hsame, hsound⟩ := retainAll_run hlive'
  have hself : (retained { ir with instructions } opds).instruction? inst = some ⟨opcode, opds⟩ := by
    rw [instruction?, hsame.instructions]
    exact get?_alloc_self h.instructions halloc
  have hb' := (hkept.block tgt).trans hb
  obtain ⟨refs, ho⟩ := object?_of_block? hb'
  refine ⟨(hsound (h.allocInst halloc)).place hself hb',
    (hkept.ordered (horder.congr (fun _ => rfl) rfl rfl)).congr (links?_setBlock hb' rfl) rfl rfl,
    get?_alloc_fresh h.instructions halloc, fun other => ?_, ⟨block.unlinked, shape?_of_block? hb,
      fun other => ?_⟩,
    hsame.slots, hsame.entry, hsame.immediates⟩
  · change (retained { ir with instructions } opds).instructions.get? other = _
    rw [hsame.instructions]
    split
    · rename_i heq
      rw [heq]
      exact get?_alloc_self h.instructions halloc
    · rename_i hne
      exact get?_alloc_of_ne h.instructions halloc hne
  · rw [Builder.setBlock, shape?_setObject ho]
    split
    · rfl
    · exact hsame.shape other

/-! ## Compaction -/

section

variable {P : Builder → Prop} (hstep : ∀ ir id block, P ir → ir.block? id = some block →
  P (ir.setBlock id block.fixup))

include hstep

lemma fixupEach_run {ids : List ObjectId} (h : P ir) (hids : ∀ id ∈ ids, ∃ block, ir.block? id = some block)
    (hothers : ∀ id block, ir.block? id = some block → id ∈ ids ∨ block.fixup = block) :
    (ids.forM fun id => modifyBlock id Block.fixup).run.run ir = (.ok (), ir.compacted) ∧ P ir.compacted := by
  induction ids generalizing ir with
  | nil =>
    rw [compacted_of_fixed fun id block hb => (hothers id block hb).resolve_left not_mem_nil]
    exact ⟨rfl, h⟩
  | cons id rest ih =>
    obtain ⟨block, hb⟩ := hids id mem_cons_self
    rw [List.forM, ExceptT.run_bind_of_ok (modifyBlock_run hb _), ← setBlock_compacted hb]
    refine ih (hstep ir id block h hb) (fun other hm => ?_) fun other inside ho => ?_
    · rw [block?_setBlock hb]
      split
      · exact ⟨_, rfl⟩
      · exact hids other (mem_cons_of_mem _ hm)
    · rw [block?_setBlock hb] at ho
      split at ho
      · cases ho
        exact .inr block.fixup_fixup
      · rename_i hne
        exact (hothers other inside ho).imp_left fun hm => (mem_cons.mp hm).resolve_left hne

/-- Compaction always succeeds.  What holds after each block holds at the end. -/
lemma fixupBlocks_run (h : P ir) (hw : ir.objects.WellFormed) (horder : ir.Ordered order) :
    fixupBlocks.run.run ir = (.ok (), ir.compacted) ∧ P ir.compacted := by
  rw [fixupBlocks, ExceptT.run_bind_of_ok (rfl : (get : Build Builder).run.run ir = (.ok ir, ir)),
    horder.blocks_eq hw]
  exact fixupEach_run hstep h (fun id hm => horder.block hm) fun id block hb => .inl (horder.complete id block hb)

end

lemma fixupBlocks_gives (h : ir.Sound held loose closing gone) (horder : ir.Ordered order) :
    Gives fixupBlocks ir fun _ later => later = ir.compacted ∧ later.Sound held loose closing gone ∧
    later.Ordered order := by
  have hstep (ir : Builder) (id : ObjectId) (block : Block) (hs : ir.Sound held loose closing gone ∧
    ir.Ordered order) (hb : ir.block? id = some block) :
      (ir.setBlock id block.fixup).Sound held loose closing gone ∧ (ir.setBlock id block.fixup).Ordered order := by
    refine ⟨hs.1.setBlock hb (fun inst => by rw [Block.instructions_fixup]) fun _ => rfl,
      hs.2.congr (links?_setBlock hb ?_) rfl rfl⟩
    unfold Block.fixup
    split <;> rfl
  obtain ⟨hrun, hs⟩ := fixupBlocks_run hstep ⟨h, horder⟩ h.objects horder
  exact ⟨_, _, hrun, rfl, hs⟩

/-! ## Removal -/

/-- An instruction is removed from its slot, with what only it refers to. -/
lemma removeInst_steady (h : ir.Steady held [] gone)
    (hb : ir.block? tgt = some block) (hslot : block.slots[slot]? = some (some inst)) :
    Gives (removeInst tgt slot) ir fun _ later => later.Steady held [] gone ∧ ir.Trimmed [] later := by
  obtain ⟨hs, order, horder⟩ := h
  obtain ⟨refs, ho⟩ := object?_of_block? hb
  have hm : inst ∈ block.instructions := mem_filterMap.mpr ⟨some inst, mem_of_getElem? hslot, rfl⟩
  obtain ⟨instr, hi⟩ := contains_iff.mp ((hs.nodup_placed ho).1 inst hm)
  unfold removeInst
  refine .step (block_run hb) ?_
  rw [hslot]
  refine .step (modifyBlock_run hb _) ?_
  let cleared := ir.setBlock tgt { block with slots := block.slots.set slot none, requiresFixup := true }
  have hi' : cleared.instruction? inst = some instr := hi
  have hst : cleared.Steady (instr.operands ++ held) [inst] gone :=
    ⟨hs.unplace hi hb hslot true, order, horder.congr (links?_setBlock hb rfl) rfl rfl⟩
  refine (deleteInstWith_steady (deleteObject_deletes _) (Nat.lt_succ_self _) hi' hst).mono ?_
  rintro - later ⟨hsteady', htrim⟩
  exact ⟨hsteady', forall_mem_nil _, htrim.slots, htrim.allocated.trans (allocated_modify _),
    Nat.le_trans htrim.live (Nat.le_of_eq (live_modify _))⟩

end Build

end Shading
