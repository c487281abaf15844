import Shading.Proofs.Ir.Operations

/-!
# Conservation of references

Whatever sequence of operations made a builder, the count of each object is
the number of places that refer to it and of the references that the caller
holds (`Builder.Conserved`).  A caller may remove a block that something still
refers to, and may release the references it retained.
-/

namespace Shading

open Build List

variable {ir builder later : Builder} {gone held order : List ObjectId}

/-! ## Callers -/

/-- What a caller does with a builder. -/
inductive Operation where
  | newRegisterFor (type : ValueType)
  | newRegister (registerClass : RegisterClass) (width : UInt8)
  | newMemory (base : ObjectId) (index? : Option ObjectId) (offset : Int32)
  | newImmediate (value : Value) (registerClass : RegisterClass) (width : UInt8)
  | newImmediateFor (value : Value) (type : ValueType)
  | newBlock
  | initEntry
  | moveToEnd (id : ObjectId)
  | emit (target : ObjectId) (opcode : Opcode) (operands : List ObjectId)
  | emitMove (target dst src : ObjectId)
  | emitFetch (target dst src : ObjectId)
  | emitStore (target dst src : ObjectId)
  | removeInst (target : ObjectId) (slot : Nat)
  | fixupBlocks
  | deleteBlock (id : ObjectId)
  | retain (id : ObjectId)
  | release (id : ObjectId)

/-- What a caller has to remember. -/
structure Ledger where
  /-- References it retained and did not release. -/
  held : List ObjectId
  /-- Blocks it removed. -/
  removed : List ObjectId

namespace Operation

def perform : Operation → Build Unit
  | newRegisterFor type => discard (Build.newRegisterFor type)
  | newRegister registerClass width => discard (Build.newRegister registerClass width)
  | newMemory base index? offset => discard (Build.newMemory base index? offset)
  | newImmediate value registerClass width => discard (Build.newImmediate value registerClass width)
  | newImmediateFor value type => discard (Build.newImmediateFor value type)
  | newBlock => discard Build.newBlock
  | initEntry => discard Build.initEntry
  | moveToEnd id => Build.moveToEnd id
  | emit target opcode operands => discard (Build.emit target opcode operands)
  | emitMove target dst src => discard (Build.emitMove target dst src)
  | emitFetch target dst src => discard (Build.emitFetch target dst src)
  | emitStore target dst src => discard (Build.emitStore target dst src)
  | removeInst target slot => Build.removeInst target slot
  | fixupBlocks => Build.fixupBlocks
  | deleteBlock id => Build.deleteObject id
  | retain id => Build.retain id
  | release id => Build.release id

/-- A caller removes no object but blocks, and releases what it holds. -/
def Allowed (ir : Builder) (ledger : Ledger) : Operation → Prop
  | deleteBlock id => ∀ kind, ir.kind? id = some kind → ∃ block, kind = .block block
  | release id => id ∈ ledger.held
  | _ => True

/-- The ledger after an operation, which changes nothing in it if it fails. -/
def record (ledger : Ledger) : Operation → Except IrError Unit → Ledger
  | retain id, .ok _ => { ledger with held := id :: ledger.held }
  | release id, .ok _ => { ledger with held := ledger.held.erase id }
  | deleteBlock id, .ok _ => { ledger with removed := id :: ledger.removed }
  | _, _ => ledger

end Operation

namespace Builder

/-- Builders that a caller can come to, and what it has to remember then.  It
goes on while there is a handle that was never given. -/
inductive Reached (slots : Nat) (limit? : Option Nat) : Builder → Ledger → Prop where
  | create {ir : Builder} (h : create slots limit? = .ok ir) : Reached slots limit? ir ⟨[], []⟩
  | step {ir : Builder} {ledger : Ledger} (operation : Operation) (h : Reached slots limit? ir ledger)
    (hroom : ir.objects.allocated + 1 < UInt32.size) (hallowed : operation.Allowed ir ledger) :
    Reached slots limit? (operation.perform.run.run ir).2
      (operation.record ledger (operation.perform.run.run ir).1)

/-- References are conserved. -/
structure Conserved (ir : Builder) (ledger : Ledger) : Prop where
  /-- Operands of instructions, registers of memory operands, data slots, the
  entry block and the caller refer to objects. -/
  refs : ∀ id object, ir.object? id = some object → object.refs =
    (ir.instructions.entries.flatMap fun entry => entry.2.operands).count id +
      (ir.objects.entries.flatMap fun entry => entry.2.kind.names).count id +
      (if some id ∈ ir.dataSlots then 1 else 0) + (if ir.entryBlock? = some id then 1 else 0) +
      ledger.held.count id
  /-- A live instruction stands in one slot of one block, and a slot holds a
  live instruction. -/
  placed : ∀ inst, (ir.objects.entries.flatMap fun entry => entry.2.kind.placed).count inst =
    if ir.instructions.contains inst then 1 else 0
  /-- What an instruction or a memory operand refers to is live, or a block
  that the caller removed. -/
  named : ∀ id, (id ∈ ir.instructions.entries.flatMap fun entry => entry.2.operands) ∨
      (id ∈ ir.objects.entries.flatMap fun entry => entry.2.kind.names) →
    ir.objects.contains id = true ∨ id ∈ ledger.removed

/-! ## Operations that may fail -/

/-- The account is kept, whatever the result. -/
structure Keeps (ir : Builder) (held gone : List ObjectId) (later : Builder) : Prop where
  steady : later.Steady held [] gone
  slots : later.dataSlots = ir.dataSlots

lemma Steady.keeps (h : ir.Steady held [] gone) : ir.Keeps held gone ir := ⟨h, rfl⟩

end Builder

namespace Build

open Builder

variable {α : Type} {id : ObjectId}

/-- An action keeps the account, whether it succeeds or fails. -/
def Keeping (action : Build α) (ir : Builder) (held gone : List ObjectId) : Prop :=
  Ends action ir (fun _ => ir.Keeps held gone) fun _ => ir.Keeps held gone

lemma Keeping.discard {act : Build α} (h : Keeping act ir held gone) : Keeping (discard act) ir held gone :=
  h.bind fun _ _ hkeeps => .of_gives (.pure hkeeps)

section

/-- Operands that are there and are not blocks go into an instruction. -/
def Emits (good : InstId → Builder → Prop) (bad : IrError → Builder → Prop) (ir : Builder)
    (target dst src : ObjectId) (code : AccessWidth → InstCode) : Prop :=
  ∀ width, (∀ operand ∈ [dst, src], ∃ kind, ir.kind? operand = some kind ∧ kind.block? = none) →
    Ends (emit target (.scalar (code width)) [dst, src]) ir good bad

variable {good : InstId → Builder → Prop} {bad : IrError → Builder → Prop} {tgt : ObjectId} (dst src : ObjectId)
  (hbad : ∀ error, bad error ir)

include hbad

/-- Moves check their operands, which are not blocks, and then are appended. -/
lemma emitMove_ends (hemit : Emits good bad ir tgt dst src .move) : Ends (emitMove tgt dst src) ir good bad := by
  unfold emitMove
  refine .check (register_checks ir dst) (fun _ => hbad) fun destination hdst =>
    .check (register_checks ir src) (fun _ => hbad) fun source hsrc => ?_
  split
  · exact hemit _ (forall_mem_cons.mpr ⟨⟨_, hdst, rfl⟩, forall_mem_singleton.mpr ⟨_, hsrc, rfl⟩⟩)
  · exact .of_error rfl (hbad _)

lemma emitFetch_ends (hemit : Emits good bad ir tgt dst src .fetch) :
    Ends (emitFetch tgt dst src) ir good bad := by
  unfold emitFetch
  refine .check (register_checks ir dst) (fun _ => hbad) fun destination hdst =>
    .check (object_checks ir src) (fun _ => hbad) fun obj hobj => ?_
  have hsrc := kind?_of_object? hobj
  cases hkind : obj.kind with
  | memory opd | immediate opd =>
    rw [hkind] at hsrc
    dsimp only
    split
    · exact hemit _ (forall_mem_cons.mpr ⟨⟨_, hdst, rfl⟩, forall_mem_singleton.mpr ⟨_, hsrc, rfl⟩⟩)
    · exact .of_error rfl (hbad _)
  | _ => exact .of_error rfl (hbad _)

lemma emitStore_ends (hemit : Emits good bad ir tgt dst src .store) :
    Ends (emitStore tgt dst src) ir good bad := by
  unfold emitStore
  refine .check (register_checks ir src) (fun _ => hbad) fun source hsrc =>
    .check (object_checks ir dst) (fun _ => hbad) fun obj hobj => ?_
  have hdst := kind?_of_object? hobj
  cases hkind : obj.kind with
  | memory opd =>
    rw [hkind] at hdst
    dsimp only
    split
    · exact hemit _ (forall_mem_cons.mpr ⟨⟨_, hdst, rfl⟩, forall_mem_singleton.mpr ⟨_, hsrc, rfl⟩⟩)
    · exact .of_error rfl (hbad _)
  | _ => exact .of_error rfl (hbad _)

end

/-- An operation on an object that is gone fails. -/
lemma stale_ends {f : Object → Build α} {good : α → Builder → Prop} (h : ir.Steady held [] gone)
    (ho : ir.object? id = none) : Ends (object id >>= f) ir good fun _ => ir.Keeps held gone := by
  refine .check (object_checks ir id) (fun _ _ => h.keeps) fun obj hobj => ?_
  rw [ho] at hobj
  cases hobj

section

variable (h : ir.Steady held [] gone) (hroom : ir.objects.allocated + 1 < UInt32.size)

include h hroom

lemma allocRegister_keeping (registerClass : RegisterClass) (width : Nat) :
    Keeping (allocRegister registerClass width) ir held gone := by
  obtain ⟨hs, order, horder⟩ := h
  refine (allocRegister_ends (fun _ => hroom) hs horder registerClass width).mono ?_ ?_
  · rintro _ later ⟨hs', horder', hadds⟩
    exact ⟨⟨hs', order, horder'⟩, hadds.slots⟩
  · rintro _ _ ⟨-, -, count, rfl⟩
    exact ⟨⟨hs.congr rfl rfl rfl rfl rfl, order, horder.congr (fun _ => rfl) rfl rfl⟩, rfl⟩

lemma newMemory_keeping (base : ObjectId) (index? : Option ObjectId) (off : Int32) :
    Keeping (newMemory base index? off) ir held gone := by
  have ⟨hs, order, horder⟩ := h
  refine (newMemory_ends (fun _ => hroom) hs horder off).mono ?_ fun _ _ hbad => hbad.1 ▸ h.keeps
  rintro _ later ⟨hs', horder', hadds⟩
  exact ⟨⟨hs', order, horder'⟩, hadds.slots⟩

lemma internImmediate_keeping (opd : ImmediateOperand) : Keeping (internImmediate opd) ir held gone := by
  have ⟨hs, order, horder⟩ := h
  refine (internImmediate_ends (fun _ => hroom) hs horder opd).mono ?_ fun _ _ hbad => hbad.1 ▸ h.keeps
  rintro _ later ⟨hs', horder', ⟨rfl, -⟩ | ⟨mid, hadds, rfl⟩⟩
  · exact h.keeps
  · exact ⟨⟨hs', order, horder'⟩, hadds.slots⟩

lemma newBlock_keeping : Keeping newBlock ir held gone := by
  have ⟨hs, order, horder⟩ := h
  refine (newBlock_ends (fun _ => hroom) hs horder).mono ?_ fun _ _ hbad => hbad.1 ▸ h.keeps
  rintro _ later ⟨hs', horder', hadds⟩
  exact ⟨⟨hs', _, horder'⟩, hadds.slots⟩

lemma initEntry_keeping : Keeping initEntry ir held gone := by
  have ⟨hs, order, horder⟩ := h
  refine (initEntry_ends (fun _ => hroom) hs horder).mono ?_ fun _ _ hbad => hbad.1 ▸ h.keeps
  rintro _ later ⟨hs', horder', mid, hadds, rfl⟩
  exact ⟨⟨hs', _, horder'⟩, hadds.slots⟩

omit hroom

lemma moveToEnd_keeping (id : ObjectId) : Keeping (moveToEnd id) ir held gone := by
  have ⟨hs, order, horder⟩ := h
  refine (moveToEnd_ends horder id).mono ?_ fun _ _ heq => heq ▸ h.keeps
  rintro _ later ⟨-, horder', hcut⟩
  exact ⟨⟨hs.relink hcut, _, horder'⟩, (Same.of_unlinked hcut).slots⟩

lemma emit_keeping (tgt : ObjectId) (opcode : Opcode) (opds : List ObjectId) :
    Keeping (emit tgt opcode opds) ir held gone := by
  have ⟨hs, order, horder⟩ := h
  refine (emit_ends hs horder).mono ?_ fun _ _ hbad => hbad.1 ▸ h.keeps
  rintro _ later ⟨hs', horder', happ⟩
  exact ⟨⟨hs', order, horder'⟩, happ.slots⟩

lemma fixupBlocks_keeping : Keeping fixupBlocks ir held gone := by
  obtain ⟨hs, order, horder⟩ := h
  refine .of_gives ((fixupBlocks_gives hs horder).mono ?_)
  rintro _ _ ⟨rfl, hs', horder'⟩
  exact ⟨⟨hs', order, horder'⟩, rfl⟩

lemma removeInst_keeping (tgt : ObjectId) (slot : Nat) : Keeping (removeInst tgt slot) ir held gone := by
  by_cases hslot : ∃ block inst, ir.block? tgt = some block ∧ block.slots[slot]? = some (some inst)
  · obtain ⟨block, inst, hb, hslot⟩ := hslot
    exact .of_gives ((removeInst_steady h hb hslot).mono fun _ _ hleft => ⟨hleft.1, hleft.2.slots⟩)
  · refine Ends.check (block_checks ir tgt) (fun _ _ => h.keeps) fun block hb => ?_
    split
    · exact .of_error rfl h.keeps
    · rename_i inst hjoin
      exact absurd ⟨block, inst, hb, Option.join_eq_some_iff.mp hjoin⟩ hslot

end

/-! ## Every operation -/

/-- What an operation leaves agrees with what its caller remembers. -/
lemma perform_ends {ledger : Ledger} {operation : Operation} (h : ir.Steady ledger.held [] ledger.removed)
    (hroom : ir.objects.allocated + 1 < UInt32.size) (hallowed : operation.Allowed ir ledger) :
    Ends operation.perform ir
      (fun _ => ir.Keeps (operation.record ledger (.ok ())).held (operation.record ledger (.ok ())).removed)
      (fun error => ir.Keeps (operation.record ledger (.error error)).held
        (operation.record ledger (.error error)).removed) := by
  cases operation with
  | newRegisterFor type | newRegister registerClass width => exact (allocRegister_keeping h hroom ..).discard
  | newMemory base index? off => exact (newMemory_keeping h hroom ..).discard
  | newImmediate val registerClass width | newImmediateFor val type =>
    exact (internImmediate_keeping h hroom ..).discard
  | newBlock => exact (newBlock_keeping h hroom).discard
  | initEntry => exact (initEntry_keeping h hroom).discard
  | moveToEnd id => exact moveToEnd_keeping h id
  | emit tgt opcode opds => exact (emit_keeping h ..).discard
  | emitMove tgt dst src => exact Keeping.discard (emitMove_ends dst src (fun _ => h.keeps) fun _ _ =>
      emit_keeping h ..)
  | emitFetch tgt dst src => exact Keeping.discard (emitFetch_ends dst src (fun _ => h.keeps) fun _ _ =>
      emit_keeping h ..)
  | emitStore tgt dst src => exact Keeping.discard (emitStore_ends dst src (fun _ => h.keeps) fun _ _ =>
      emit_keeping h ..)
  | removeInst tgt slot => exact removeInst_keeping h tgt slot
  | fixupBlocks => exact fixupBlocks_keeping h
  | deleteBlock id =>
    cases ho : ir.object? id with
    | none =>
      refine .step rfl ?_
      rw [deleteUpTo]
      exact stale_ends h ho
    | some obj =>
      obtain ⟨block, hk⟩ := hallowed obj.kind (kind?_of_object? ho)
      have hb : ir.block? id = some block := block?_of_kind? (hk ▸ kind?_of_object? ho)
      refine .of_gives ((deleteObject_block h hb (Nat.lt_of_succ_lt hroom)).mono ?_)
      rintro _ later ⟨hst, htrim⟩
      exact ⟨hst, htrim.slots⟩
  | retain id =>
    cases ho : ir.object? id with
    | none => exact stale_ends h ho
    | some obj =>
      obtain ⟨hs, order, horder⟩ := h
      refine .of_gives ((retain_gives hs ho).mono ?_)
      rintro _ later ⟨hs', hkept, hsame⟩
      exact ⟨⟨hs', order, hkept.ordered horder⟩, hkept.slots⟩
  | release id =>
    cases ho : ir.object? id with
    | none => exact stale_ends h ho
    | some obj =>
      have hst : ir.Steady (id :: ledger.held.erase id) [] ledger.removed :=
        ⟨h.1.perm (perm_cons_erase hallowed), h.2⟩
      refine .of_gives ((releaseWith_steady (deleteObject_deletes _) (Nat.lt_succ_self _) hst ho).mono ?_)
      rintro _ later ⟨hsteady', htrim⟩
      exact ⟨hsteady', htrim.slots⟩

end Build

/-- Adds a data slot. -/
def Build.addSlot : Build Unit := do
  let id ← allocRegister .general pointerWidth
  retain id
  modify fun ir => { ir with dataSlots := ir.dataSlots ++ [some id] }

namespace Builder

variable {ledger : Ledger} {slots : Nat} {lim? : Option Nat}

lemma steady_empty (lim? : Option Nat) : (empty lim?).Steady [] [] [] := by
  have hnone (id : ObjectId) : (empty lim?).object? id = none := rfl
  refine ⟨⟨Arena.wellFormed_empty lim?, Arena.wellFormed_empty lim?, fun hg => absurd rfl hg, fun id obj ho => ?_,
    fun _ => rfl, fun id hpos => ?_, forall_mem_nil _, fun id kind hk => ?_, fun _ => rfl⟩, [],
    listed_empty lim?, fun id block hb => ?_⟩
  · rw [hnone] at ho
    cases ho
  · exact absurd hpos (Nat.lt_irrefl 0)
  · rw [kind?, hnone] at hk
    cases hk
  · rw [block?, kind?, hnone] at hb
    cases hb

/-- A data slot is a new register. -/
lemma addSlot_ends (h : ir.Steady [] [] []) (hnodup : ir.dataSlots.Nodup) : Build.Ends addSlot ir
    (fun _ later => later.Steady [] [] [] ∧ later.dataSlots.Nodup) fun _ _ => True := by
  obtain ⟨hs, order, horder⟩ := h
  refine .bind ((allocRegister_ends (fun hg => absurd rfl hg) hs horder .general pointerWidth).mono
    (fun _ _ hgood => hgood) fun _ _ _ => trivial) ?_
  rintro id mid ⟨hs', horder', hadds⟩
  obtain ⟨obj, ho, -⟩ := object?_of_shape? hadds.self
  refine .of_gives (.bind (retain_gives hs' ho) ?_)
  rintro _ later ⟨hs'', hkept, hsame⟩
  refine .of_run rfl ⟨⟨hs''.addSlot, order, (hkept.ordered horder').congr (fun _ => rfl) rfl rfl⟩, ?_⟩
  dsimp only
  have hslots : later.dataSlots = ir.dataSlots := hsame.slots.trans hadds.slots
  rw [hslots, nodup_append_comm, singleton_append, nodup_cons]
  refine ⟨fun hm => ?_, hnodup⟩
  -- A register in a data slot is live, so it is not the new one.
  have hroot : 0 < ir.nameCount [] [] id + ([] : List ObjectId).count id := by
    have hmem : id ∈ ir.rootNames := mem_append_left _ (mem_filterMap.mpr ⟨some id, hm, rfl⟩)
    have hpos := count_pos_iff.mpr hmem
    unfold nameCount
    omega
  obtain ⟨obj, hobj⟩ := contains_iff.mp ((hs.solid id hroot).resolve_right not_mem_nil)
  rw [hadds.fresh] at hobj
  cases hobj

/-- What holds of an empty builder, and goes on to hold as data slots are added. -/
lemma create_induct (holds : Nat → Builder → Prop) (hempty : holds 0 (empty lim?))
    (hstep : ∀ n ir, holds n ir → Build.Ends addSlot ir (fun _ => holds (n + 1)) fun _ _ => True)
    (h : create slots lim? = .ok ir) : slots ≤ maxDataSlots ∧ holds slots ir := by
  have hall (n more : Nat) (ir : Builder) (hir : holds n ir) :
      Build.Ends ((replicate more ()).forM fun _ => addSlot) ir (fun _ => holds (n + more)) fun _ _ => True := by
    induction more generalizing n ir with
    | zero => exact .of_gives (.pure hir)
    | succ more ih =>
      rw [List.replicate_succ, List.forM, Nat.add_comm more, ← Nat.add_assoc]
      exact (hstep n ir hir).bind fun _ mid hmid => ih (n + 1) mid hmid
  unfold create at h
  split at h
  · cases h
  · rename_i hslots
    dsimp only at h
    split at h
    · rename_i later hrun
      cases h
      have hholds := (hall 0 slots (empty lim?) hempty).ok hrun
      rw [Nat.zero_add] at hholds
      exact ⟨Nat.le_of_not_lt hslots, hholds⟩
    · cases h

lemma steady_of_create (h : create slots lim? = .ok ir) : ir.Steady [] [] [] ∧ ir.dataSlots.Nodup :=
  (create_induct (fun _ ir => ir.Steady [] [] [] ∧ ir.dataSlots.Nodup) ⟨steady_empty lim?, nodup_nil⟩
    (fun _ _ hir => addSlot_ends hir.1 hir.2) h).2

lemma count_slots (id : ObjectId) (slots : List (Option ObjectId)) :
    (slots.filterMap fun slot => slot).count id = slots.count (some id) := by
  induction slots with
  | nil => rfl
  | cons slot rest ih =>
    cases slot with
    | none =>
      rw [filterMap_cons_none rfl, ih, count_cons_of_ne (Option.some_ne_none id).symm]
    | some other =>
      rw [count_cons, ← ih]
      change (other :: rest.filterMap fun slot => slot).count id = _
      rw [count_cons]
      simp

lemma Reached.steady (h : Reached slots lim? ir ledger) :
    ir.Steady ledger.held [] ledger.removed ∧ ir.dataSlots.Nodup := by
  induction h with
  | create h => exact steady_of_create h
  | @step ir ledger operation _ hroom hallowed ih =>
    have hends := perform_ends ih.1 hroom hallowed
    cases hrun : operation.perform.run.run ir with
    | mk res later =>
      rw [Build.Ends, hrun] at hends
      cases res with
      | ok _ | error error => exact ⟨hends.steady, hends.slots ▸ ih.2⟩

/-- References are conserved by every sequence of operations. -/
theorem conserved_of_reached {limit? : Option Nat} (h : Reached slots limit? builder ledger) :
    builder.Conserved ledger := by
  obtain ⟨⟨hs, -⟩, hnodup⟩ := h.steady
  have hoperands : builder.operandNames [] = builder.instructions.entries.flatMap fun entry => entry.2.operands :=
    Arena.collect_nil ..
  have hmemory : builder.memoryNames [] = builder.objects.entries.flatMap fun entry => entry.2.kind.names :=
    Arena.collect_nil ..
  have hplacements : builder.placements = builder.objects.entries.flatMap fun entry => entry.2.kind.placed :=
    Arena.collect_nil ..
  refine ⟨fun id object ho => ?_, fun inst => ?_, fun id hm => hs.solid id ?_⟩
  · have hslots : (builder.dataSlots.filterMap fun slot => slot).count id = if some id ∈ builder.dataSlots
      then 1 else 0 := by
      rw [count_slots]
      split
      · rename_i hm
        exact List.count_eq_one_of_mem hnodup hm
      · rename_i hm
        exact List.count_eq_zero.mpr hm
    have hentry : builder.entryBlock?.toList.count id = if builder.entryBlock? = some id then 1 else 0 := by
      cases builder.entryBlock? with
      | none => rfl
      | some entry => simp [List.count_cons]
    rw [hs.refs id object ho, nameCount, hoperands, hmemory, rootNames, List.count_append, hslots, hentry]
    omega
  · rw [← hplacements, ← hs.placed inst, List.count_nil, Nat.add_zero]
  · rw [← hoperands, ← hmemory] at hm
    have hpos : 0 < (builder.operandNames []).count id + (builder.memoryNames []).count id := by
      rcases hm with hm | hm
      · exact Nat.add_pos_left (List.count_pos_iff.mpr hm) _
      · exact Nat.add_pos_right _ (List.count_pos_iff.mpr hm)
    unfold nameCount
    omega

/-- A block that jumps to itself and that the caller holds has two
references. -/
theorem conserved_of_reached_selfJump : ∃ builder, Reached 1 none builder ⟨[⟨1, 0⟩], []⟩ ∧
    builder.Conserved ⟨[⟨1, 0⟩], []⟩ ∧ builder.refs? ⟨1, 0⟩ = some 2 := by
  have hcreated : Reached 1 none _ _ := .create rfl
  have hblock := Reached.step .newBlock hcreated (by decide +kernel) trivial
  have hjump := Reached.step (.emit ⟨1, 0⟩ (.scalar .jmp) [⟨1, 0⟩]) hblock (by decide +kernel) trivial
  have hheld := Reached.step (.retain ⟨1, 0⟩) hjump (by decide +kernel) trivial
  exact ⟨_, hheld, conserved_of_reached hheld, by decide +kernel⟩

end Builder

end Shading
