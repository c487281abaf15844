import Shading.Proofs.Ir.Listing

/-!
# Graphs of blocks

While code is made, some blocks are filled, the last of them is the current
one, and others are pending: they are empty and wait to be entered.  A `Graph`
says which instructions are where, and `Builder.Draws` that a builder holds
just this.  In a well-formed graph a block is closed by a jump or return before
the next one is entered, and each block but the first is entered only if an
earlier one jumps to it.
-/

namespace Shading

open List

variable {id : ObjectId} {instr : Instruction}
  {code last : List Instruction} {inst : InstId}

/-! ## Code -/

/-- Pure instructions do not jump or return. -/
lemma InstCode.isControl_of_isPure {code : InstCode} (h : code.isPure = true) : code.isControl = false := by
  cases code <;> first | rfl | cases h

namespace Instruction

/-- Blocks to which an instruction jumps. -/
def targets (instr : Instruction) : List ObjectId :=
  match instr.opcode.code, instr.operands with
  | .jmp, [target] | .jnz, [_, target] => [target]
  | _, _ => []

def jump (target : ObjectId) : Instruction := ⟨.scalar .jmp, [target]⟩

def jumpIf (value target : ObjectId) : Instruction := ⟨.scalar .jnz, [value, target]⟩

def ret : Instruction := ⟨.scalar .ret, []⟩

@[simp] lemma targets_jump (tgt : ObjectId) : (jump tgt).targets = [tgt] := rfl

@[simp] lemma targets_jumpIf (val tgt : ObjectId) : (jumpIf val tgt).targets = [tgt] := rfl

lemma targets_of_not_control (h : instr.opcode.code.isControl = false) : instr.targets = [] := by
  obtain ⟨⟨code, width⟩, opds⟩ := instr
  cases code <;> first | rfl | cases h

lemma targets_of_pure (h : instr.opcode.code.isPure = true) : instr.targets = [] :=
  targets_of_not_control (InstCode.isControl_of_isPure h)

lemma mem_operands_of_mem_targets {tgt : ObjectId} (h : tgt ∈ instr.targets) : tgt ∈ instr.operands := by
  unfold targets at h
  split at h
  · rename_i heq
    rwa [heq]
  · rename_i heq
    rw [heq]
    exact mem_cons_of_mem _ h
  · cases h

end Instruction

namespace Code

/-- Code that control runs through. -/
def Straight (code : List Instruction) : Prop := ∀ instr ∈ code, instr.opcode.code.isControl = false

/-- How a block ends: with a return, a jump, or a choice of two jumps. -/
inductive Exit : List Instruction → Prop where
  | ret : Exit [.ret]
  | jump (target : ObjectId) : Exit [.jump target]
  | choice (value ifTrue ifFalse : ObjectId) : Exit [.jumpIf value ifTrue, .jump ifFalse]

/-- Code of a finished block. -/
def Closed (code : List Instruction) : Prop := ∃ body last, code = body ++ last ∧ Straight body ∧ Exit last

/-- Blocks to which code jumps. -/
def targets (code : List Instruction) : List ObjectId := code.flatMap (·.targets)

lemma straight_nil : Straight [] := forall_mem_nil _

lemma Straight.append {a b : List Instruction} (ha : Straight a) (hb : Straight b) : Straight (a ++ b) := by
  intro instr hm
  exact (mem_append.mp hm).elim (ha instr) (hb instr)

lemma Straight.closed {body : List Instruction} (h : Straight body) (hlast : Exit last) : Closed (body ++ last) :=
  ⟨body, last, rfl, h, hlast⟩

@[simp] lemma targets_nil : targets [] = [] := rfl

@[simp] lemma targets_append (a b : List Instruction) : targets (a ++ b) = targets a ++ targets b := flatMap_append

lemma Straight.targets (h : Straight code) : Code.targets code = [] :=
  flatMap_eq_nil_iff.mpr fun instr hm => Instruction.targets_of_not_control (h instr hm)

end Code

/-! ## Graphs -/

/-- The blocks of a function on its way. -/
structure Graph where
  /-- Blocks that were filled, in order, and their code. -/
  before : List (ObjectId × List Instruction)
  /-- The block that is filled now. -/
  current : ObjectId
  code : List Instruction
  /-- Empty blocks that wait. -/
  pending : List ObjectId

namespace Graph

variable (graph : Graph)

/-- All blocks with code. -/
def blocks : List (ObjectId × List Instruction) := graph.before ++ [(graph.current, graph.code)]

def ids : List ObjectId := graph.blocks.map Prod.fst ++ graph.pending

/-- Blocks to which some blocks jump. -/
def targetsOf (blocks : List (ObjectId × List Instruction)) : List ObjectId := blocks.flatMap fun block =>
    Code.targets block.2

/-- Blocks to which there is a jump. -/
def targets : List ObjectId := targetsOf graph.blocks

/-- All instructions of a graph. -/
def instructions : List Instruction := graph.blocks.flatMap Prod.snd

/-- More code in the current block. -/
def emit (more : List Instruction) : Graph := { graph with code := graph.code ++ more }

/-- Goes on in another block. -/
def enter (id : ObjectId) : Graph := ⟨graph.blocks, id, [], graph.pending.erase id⟩

def add (id : ObjectId) : Graph := { graph with pending := id :: graph.pending }

def drop (id : ObjectId) : Graph := { graph with pending := graph.pending.erase id }

/-- All blocks but the last are closed, and each but the first is the target
of an earlier one. -/
structure WellFormed (terminated : Bool) : Prop where
  before : ∀ block ∈ graph.before, Code.Closed block.2
  current : if terminated then Code.Closed graph.code else Code.Straight graph.code
  reached : ∀ first block rest, graph.before = first ++ block :: rest → first ≠ [] → block.1 ∈ targetsOf first
  entered : graph.before ≠ [] → graph.current ∈ targetsOf graph.before
  known : graph.targets ⊆ graph.ids

variable {graph}

lemma targets_eq : graph.targets = targetsOf graph.before ++ Code.targets graph.code := by
  rw [targets, blocks, targetsOf, flatMap_append, targetsOf, flatMap_singleton]

lemma instructions_eq : graph.instructions = graph.before.flatMap Prod.snd ++ graph.code := by
  rw [instructions, blocks, flatMap_append, flatMap_singleton]

@[simp] lemma instructions_emit (code : List Instruction) :
    (graph.emit code).instructions = graph.instructions ++ code := by
  rw [instructions_eq, instructions_eq, emit, append_assoc]

@[simp] lemma instructions_enter (id : ObjectId) : (graph.enter id).instructions = graph.instructions := by
  rw [instructions_eq, enter, append_nil, instructions]

@[simp] lemma emit_nil : graph.emit [] = graph := by
  rw [emit, append_nil]

@[simp] lemma emit_emit (a b : List Instruction) : (graph.emit a).emit b = graph.emit (a ++ b) := by
  rw [emit, emit, emit, append_assoc]

@[simp] lemma ids_emit (code : List Instruction) : (graph.emit code).ids = graph.ids := by
  simp [ids, blocks, emit]

@[simp] lemma targets_emit (code : List Instruction) :
    (graph.emit code).targets = graph.targets ++ Code.targets code := by
  rw [targets_eq, targets_eq, emit, Code.targets_append, append_assoc]

@[simp] lemma targets_enter (id : ObjectId) : (graph.enter id).targets = graph.targets := by
  rw [targets_eq, enter, Code.targets_nil, append_nil, targets]

lemma ids_add (id : ObjectId) : (graph.add id).ids.Perm (id :: graph.ids) := perm_middle

lemma ids_enter (h : id ∈ graph.pending) : (graph.enter id).ids.Perm graph.ids := by
  have hblocks : (graph.enter id).blocks.map Prod.fst = graph.blocks.map Prod.fst ++ [id] := by
    simp [enter, blocks]
  rw [ids, hblocks, ids, append_assoc, singleton_append]
  exact List.Perm.append_left _ (perm_cons_erase h).symm

lemma ids_drop (hnodup : graph.ids.Nodup) (h : id ∈ graph.pending) : (graph.drop id).ids = graph.ids.erase id := by
  have hnot : id ∉ graph.blocks.map Prod.fst := fun hm => disjoint_of_nodup_append hnodup hm h
  exact (erase_append_right _ hnot).symm

lemma mem_ids_current : graph.current ∈ graph.ids := by
  simp [ids, blocks]

lemma mem_ids_of_pending (h : id ∈ graph.pending) : id ∈ graph.ids := mem_append_right _ h

namespace WellFormed

variable {terminated : Bool}

lemma emit (h : graph.WellFormed false) (hs : Code.Straight code) : (graph.emit code).WellFormed false := by
  refine ⟨h.before, (show Code.Straight graph.code from h.current).append hs, h.reached, h.entered, ?_⟩
  rw [targets_emit, hs.targets, append_nil, ids_emit]
  exact h.known

lemma close (h : graph.WellFormed false) (hlast : Code.Exit last)
    (hknown : Code.targets last ⊆ graph.ids) : (graph.emit last).WellFormed true := by
  refine ⟨h.before, (show Code.Straight graph.code from h.current).closed hlast, h.reached, h.entered, ?_⟩
  rw [targets_emit, ids_emit]
  exact append_subset.mpr ⟨h.known, hknown⟩

lemma closed (h : graph.WellFormed true) : ∀ blk ∈ graph.blocks, Code.Closed blk.2 := by
  intro blk hm
  rcases mem_append.mp hm with hm | hm
  · exact h.before blk hm
  · rw [mem_singleton.mp hm]
    exact h.current

/-- Each block but the first is the target of an earlier one. -/
lemma reached_blocks {first rest : List (ObjectId × List Instruction)} {blk : ObjectId × List Instruction}
    (h : graph.WellFormed terminated) (heq : graph.blocks = first ++ blk :: rest) (hne : first ≠ []) :
    blk.1 ∈ targetsOf first := by
  rcases append_eq_append_iff.mp heq with ⟨mid, hfirst, hrest⟩ | ⟨mid, hbefore, hrest⟩
  · cases mid with
    | nil =>
      rw [append_nil] at hfirst
      obtain ⟨rfl, -⟩ := cons.inj hrest
      rw [hfirst] at hne ⊢
      exact h.entered hne
    | cons other mid => simp at hrest
  · cases mid with
    | nil =>
      rw [append_nil] at hbefore
      obtain ⟨rfl, -⟩ := cons.inj hrest
      rw [← hbefore] at hne ⊢
      exact h.entered hne
    | cons other mid =>
      obtain ⟨rfl, -⟩ := cons.inj hrest
      exact h.reached first blk mid hbefore hne

lemma enter (h : graph.WellFormed true) (hp : id ∈ graph.pending) (ht : id ∈ graph.targets) :
    (graph.enter id).WellFormed false := by
  refine ⟨h.closed, Code.straight_nil, fun first blk rest heq hne => h.reached_blocks heq hne, fun _ => ht,
    fun tgt hm => ?_⟩
  rw [targets_enter] at hm
  exact (ids_enter hp).mem_iff.mpr (h.known hm)

lemma add (h : graph.WellFormed terminated) : (graph.add id).WellFormed terminated :=
  ⟨h.before, h.current, h.reached, h.entered, fun _ hm => ids_add id |>.mem_iff.mpr (.tail _ (h.known hm))⟩

lemma drop (h : graph.WellFormed terminated) (hnodup : graph.ids.Nodup) (hp : id ∈ graph.pending)
    (ht : id ∉ graph.targets) : (graph.drop id).WellFormed terminated := by
  refine ⟨h.before, h.current, h.reached, h.entered, fun tgt hm => ?_⟩
  have hne : tgt ≠ id := by
    rintro rfl
    exact ht hm
  rw [ids_drop hnodup hp, mem_erase_of_ne hne]
  exact h.known hm

end WellFormed

end Graph

/-! ## Builders that hold a graph -/

namespace Builder

variable {ir later : Builder} {graph : Graph} {order : List ObjectId} {base : ObjectId} {id : ObjectId}

/-- The builder holds the graph.  Its only data slot is the register `base`. -/
structure Draws (ir : Builder) (graph : Graph) (order : List ObjectId) (base : ObjectId) : Prop where
  sound : ir.Sound [] [] [] []
  ordered : ir.Ordered order
  perm : order.Perm graph.ids
  sublist : (graph.blocks.map Prod.fst).Sublist order
  blocks : ∀ block ∈ graph.blocks, ir.listing? block.1 = some block.2
  pending : ∀ id ∈ graph.pending, ir.listing? id = some []
  /-- Blocks are named by jumps only. -/
  operands : ∀ block ∈ graph.blocks, ∀ instr ∈ block.2, ∀ operand ∈ instr.operands, ∀ inside,
    ir.shape? operand = some (.block inside) → operand ∈ instr.targets
  entry : ir.entryBlock? = graph.blocks.head?.map Prod.fst
  slots : ir.dataSlots = [some base]
  base : ∃ register, ir.shape? base = some (.register register)
  /-- Each immediate is stored under its key. -/
  interned : ∀ pair ∈ ir.immediates, ∃ operand, ir.shape? pair.2 = some (.immediate operand) ∧
    operand.key = pair.1

namespace Draws

section

variable (h : ir.Draws graph order base)
include h

lemma nodup : graph.ids.Nodup := h.perm.nodup_iff.mp h.ordered.nodup

lemma exists_block (hm : id ∈ graph.ids) : ∃ blk, ir.block? id = some blk :=
  h.ordered.block (h.perm.mem_iff.mpr hm)

lemma shape?_block (hm : id ∈ graph.ids) : ∃ blk, ir.shape? id = some (.block blk) := by
  obtain ⟨blk, hb⟩ := h.exists_block hm
  exact ⟨blk.unlinked, shape?_of_block? hb⟩

lemma not_mem_blocks_of_pending (hp : id ∈ graph.pending) :
    id ∉ graph.blocks.map Prod.fst := fun hm => disjoint_of_nodup_append h.nodup hm hp

/-- The code of the current block. -/
lemma listing?_current : ir.listing? graph.current = some graph.code :=
  h.blocks (graph.current, graph.code) (mem_append_right _ (.head _))

/-- The entry block is not pending. -/
lemma entry_ne_of_pending (hp : id ∈ graph.pending) : ir.entryBlock? ≠ some id := by
  intro hentry
  rw [h.entry] at hentry
  obtain ⟨blk, hhead, rfl⟩ := Option.map_eq_some_iff.mp hentry
  exact h.not_mem_blocks_of_pending hp (mem_map.mpr ⟨blk, mem_of_head? hhead, rfl⟩)

/-- A live instruction is in the code of some block. -/
lemma exists_code (hi : ir.instruction? inst = some instr) : ∃ blk ∈ graph.blocks, instr ∈ blk.2 := by
  obtain ⟨other, inside, hin, hplaced⟩ := h.sound.exists_block hi
  have hslot : some inst ∈ inside.slots := by
    obtain ⟨slot, hslot, rfl⟩ := mem_filterMap.mp hplaced
    exact hslot
  have hmem : ∀ code, ir.listing? other = some code → instr ∈ code := by
    intro code hcode
    rw [listing?, hin, Option.bind_some] at hcode
    exact (mem_of_resolve? hcode instr).mpr ⟨inst, hslot, hi⟩
  rcases mem_append.mp (h.perm.mem_iff.mp (h.ordered.complete other inside hin)) with hname | hpend
  · obtain ⟨filled, hfilled, rfl⟩ := mem_map.mp hname
    exact ⟨filled, hfilled, hmem filled.2 (h.blocks filled hfilled)⟩
  · exact absurd (hmem [] (h.pending other hpend)) not_mem_nil

/-- A pending block has references if something jumps to it. -/
lemma refs?_pending (hp : id ∈ graph.pending) : ir.refs? id = some 0 ↔ id ∉ graph.targets := by
  obtain ⟨blk, hb⟩ := h.exists_block (Graph.mem_ids_of_pending hp)
  have hroot : id ∉ ir.rootNames := by
    intro hm
    rcases mem_append.mp hm with hm | hm
    · rw [h.slots] at hm
      obtain rfl : id = base := mem_singleton.mp hm
      obtain ⟨reg, hr⟩ := h.base
      rw [shape?_of_block? hb] at hr
      cases hr
    · exact h.entry_ne_of_pending hp (Option.mem_toList.mp hm)
  rw [h.sound.refs?_block hb hroot]
  constructor
  · intro hall hm
    obtain ⟨filled, hfilled, hm⟩ := mem_flatMap.mp hm
    obtain ⟨instr, hi, hm⟩ := mem_flatMap.mp hm
    obtain ⟨inst, hinst⟩ := instruction?_of_listing? (h.blocks filled hfilled) hi
    exact hall inst instr hinst (Instruction.mem_operands_of_mem_targets hm)
  · intro hnot inst instr hinst hm
    obtain ⟨filled, hfilled, hcode⟩ := h.exists_code hinst
    have htgt := h.operands filled hfilled instr hcode id hm _ (shape?_of_block? hb)
    exact hnot (mem_flatMap.mpr ⟨filled, hfilled, mem_flatMap.mpr ⟨instr, hcode, htgt⟩⟩)

/-! ## Operations -/

/-- Where operands stay, so do the base register and the immediates. -/
lemma operands_stay (hkeep : ∀ other kind, ir.shape? other = some kind → kind.block? = none →
      later.shape? other = some kind) (himmediates : later.immediates = ir.immediates) :
    (∃ reg, later.shape? base = some (.register reg)) ∧
      ∀ pair ∈ later.immediates, ∃ opd, later.shape? pair.2 = some (.immediate opd) ∧ opd.key = pair.1 := by
  obtain ⟨reg, hr⟩ := h.base
  refine ⟨⟨reg, hkeep _ _ hr rfl⟩, fun pair hm => ?_⟩
  obtain ⟨opd, hk, hkey⟩ := h.interned pair (himmediates ▸ hm)
  exact ⟨opd, hkeep _ _ hk rfl, hkey⟩

lemma enter (hp : id ∈ graph.pending) (hlast : ∃ rest, order = rest ++ [id]) :
    ir.Draws (graph.enter id) order base := by
  have hnames : (graph.enter id).blocks.map Prod.fst = graph.blocks.map Prod.fst ++ [id] := by
    simp [Graph.enter, Graph.blocks]
  refine ⟨h.sound, h.ordered, h.perm.trans (Graph.ids_enter hp).symm, ?_, fun blk hm => ?_, fun other hm => ?_,
    fun blk hm => ?_, ?_, h.slots, h.base, h.interned⟩
  · obtain ⟨rest, rfl⟩ := hlast
    rw [hnames]
    refine List.Sublist.append ?_ (List.Sublist.refl _)
    obtain ⟨names, last, heq, hnames, hsub⟩ := sublist_append_iff.mp h.sublist
    have hnot := h.not_mem_blocks_of_pending hp
    cases last with
    | nil => rwa [heq, append_nil]
    | cons other last =>
      have hother : other = id := mem_singleton.mp (hsub.subset (.head _))
      rw [heq, hother] at hnot
      simp at hnot
  · rcases mem_append.mp hm with hm | hm
    · exact h.blocks blk hm
    · obtain rfl := mem_singleton.mp hm
      exact h.pending id hp
  · exact h.pending other (mem_of_mem_erase hm)
  · rcases mem_append.mp hm with hm | hm
    · exact h.operands blk hm
    · obtain rfl := mem_singleton.mp hm
      exact fun _ hi => absurd hi not_mem_nil
  · rw [h.entry, Graph.enter, Graph.blocks, Graph.blocks]
    simp

variable (hs : later.Sound [] [] [] [])

include hs

lemma addOperand {kind : ObjectKind} (hadds : ir.Adds id kind later)
    (ho : later.Ordered order) (hk : kind.block? = none) :
    later.Draws graph order base := by
  have hstay := h.operands_stay (fun _ _ hk _ => hadds.shape?_of_some hk) hadds.immediates
  refine ⟨hs, ho, h.perm, h.sublist, fun blk hm => hadds.listing? (h.blocks blk hm),
    fun other hm => hadds.listing? (h.pending other hm), fun blk hm instr hi opd hopd inside hin => ?_,
    hadds.entry.trans h.entry, hadds.slots.trans h.slots, hstay.1, hstay.2⟩
  refine h.operands blk hm instr hi opd hopd inside ?_
  rw [hadds.shape] at hin
  split at hin
  · cases hin
    cases hk
  · exact hin

lemma intern {opd : ImmediateOperand} (hk : ir.shape? id = some (.immediate opd)) (ho : later.Ordered order)
    (heq : later = { ir with immediates := (opd.key, id) :: ir.immediates.filter (·.1 ≠ opd.key) }) :
    later.Draws graph order base := by
  subst heq
  refine ⟨hs, ho, h.perm, h.sublist, h.blocks, h.pending, h.operands, h.entry, h.slots, h.base, fun pair hm => ?_⟩
  rcases mem_cons.mp hm with rfl | hm
  · exact ⟨opd, hk, rfl⟩
  · exact h.interned pair (mem_of_mem_filter hm)

lemma addBlock {blk : Block} (hadds : ir.Adds id (.block blk) later)
    (ho : later.Ordered (order ++ [id])) (hempty : blk.slots = []) :
    later.Draws (graph.add id) (order ++ [id]) base := by
  have hstay := h.operands_stay (fun _ _ hk _ => hadds.shape?_of_some hk) hadds.immediates
  refine ⟨hs, ho, ?_, h.sublist.trans (sublist_append_left order [id]), fun filled hm =>
    hadds.listing? (h.blocks filled hm), fun other hm => ?_, fun filled hm instr hi opd hopd inside hin => ?_,
    hadds.entry.trans h.entry, hadds.slots.trans h.slots, hstay.1, hstay.2⟩
  · refine (perm_append_comm.trans (List.Perm.cons id h.perm)).trans (Graph.ids_add id).symm
  · rcases mem_cons.mp hm with rfl | hm
    · exact hadds.listing?_self hempty
    · exact hadds.listing? (h.pending other hm)
  · refine h.operands filled hm instr hi opd hopd inside ?_
    rw [hadds.shape] at hin
    split at hin
    · -- The new block is not named yet.
      rename_i heq
      obtain ⟨inst, hinst⟩ := instruction?_of_listing? (h.blocks filled hm) hi
      obtain ⟨obj, ho⟩ := h.sound.named hinst hopd
      rw [heq, hadds.fresh] at ho
      cases ho
    · exact hin

lemma emit (happ : ir.Appends graph.current inst instr later) (ho : later.Ordered order)
    (hopds : ∀ opd ∈ instr.operands, ∀ inside, ir.shape? opd = some (.block inside) → opd ∈ instr.targets) :
    later.Draws (graph.emit [instr]) order base := by
  obtain ⟨tgt, htgt, hshape⟩ := happ.shape
  have hnames : (graph.emit [instr]).blocks.map Prod.fst = graph.blocks.map Prod.fst := by
    simp [Graph.blocks, Graph.emit]
  have hstay := h.operands_stay (fun other kind hk hb => by
    rw [hshape, if_neg, hk]
    rintro rfl
    rw [htgt] at hk
    cases hk
    cases hb) happ.immediates
  have hblk {other : ObjectId} {inside : Block} (hin : later.shape? other = some (.block inside)) :
      ∃ old, ir.shape? other = some (.block old) := by
    rw [hshape] at hin
    split at hin
    · rename_i heq
      exact ⟨tgt, heq ▸ htgt⟩
    · exact ⟨inside, hin⟩
  have hcur : graph.current ∉ graph.pending ∧ ∀ blk ∈ graph.before, blk.1 ≠ graph.current := by
    have hnodup := h.nodup
    rw [Graph.ids, Graph.blocks, map_append, append_assoc, map_cons, map_nil, singleton_append,
      nodup_append'] at hnodup
    obtain ⟨-, hrest, hdisj⟩ := hnodup
    refine ⟨(nodup_cons.mp hrest).1, fun blk hm heq => hdisj (mem_map.mpr ⟨blk, hm, rfl⟩) ?_⟩
    rw [heq]
    exact mem_cons_self ..
  refine ⟨hs, ho, ?_, hnames ▸ h.sublist, fun blk hm => ?_, fun other hm => ?_, fun blk hm => ?_, ?_,
    happ.slots.trans h.slots, hstay.1, hstay.2⟩
  · rw [Graph.ids_emit]
    exact h.perm
  · rcases mem_append.mp hm with hm | hm
    · exact happ.listing? (hcur.2 blk hm) (h.blocks blk (mem_append_left _ hm))
    · obtain rfl := mem_singleton.mp hm
      exact happ.listing?_self h.listing?_current
  · refine happ.listing? ?_ (h.pending other hm)
    rintro rfl
    exact hcur.1 hm
  · intro i hi opd hopd inside hin
    obtain ⟨old, hold⟩ := hblk hin
    rcases mem_append.mp hm with hm | hm
    · exact h.operands blk (mem_append_left _ hm) i hi opd hopd old hold
    · obtain rfl := mem_singleton.mp hm
      rcases mem_append.mp hi with hi | hi
      · exact h.operands _ (mem_append_right _ (.head _)) i hi opd hopd old hold
      · obtain rfl := mem_singleton.mp hi
        exact hopds opd hopd old hold
  · rw [happ.entry, h.entry, ← head?_map, ← head?_map, hnames]

/-- The order of pending blocks does not matter. -/
lemma same {order' : List ObjectId} (hsame : ir.Same later)
    (ho : later.Ordered order') (hperm : order'.Perm order)
    (hsublist : (graph.blocks.map Prod.fst).Sublist order') : later.Draws graph order' base := by
  have hstay := h.operands_stay (fun other _ hk _ => (hsame.shape other).trans hk) hsame.immediates
  refine ⟨hs, ho, hperm.trans h.perm, hsublist, fun blk hm => hsame.listing? (h.blocks blk hm),
    fun other hm => hsame.listing? (h.pending other hm), fun blk hm instr hi opd hopd inside hin => ?_,
    hsame.entry.trans h.entry, hsame.slots.trans h.slots, hstay.1, hstay.2⟩
  exact h.operands blk hm instr hi opd hopd inside ((hsame.shape opd).symm.trans hin)

lemma drop (hp : id ∈ graph.pending) (hremoves : ir.Removes id later)
    (ho : later.Ordered (order.erase id)) : later.Draws (graph.drop id) (order.erase id) base := by
  have hnot := h.not_mem_blocks_of_pending hp
  have hstay := h.operands_stay (fun other kind hk hb => by
    rw [hremoves.shape, if_neg, hk]
    rintro rfl
    obtain ⟨blk, hblk⟩ := h.shape?_block (Graph.mem_ids_of_pending hp)
    rw [hblk] at hk
    cases hk
    cases hb) hremoves.immediates
  refine ⟨hs, ho, ?_, ?_, fun blk hm => ?_, fun other hm => ?_, fun blk hm instr hi opd hopd inside hin => ?_,
    hremoves.entry.trans h.entry, hremoves.slots.trans h.slots, hstay.1, hstay.2⟩
  · rw [Graph.ids_drop h.nodup hp]
    exact h.perm.erase id
  · have herase := h.sublist.erase id
    rwa [erase_of_not_mem hnot] at herase
  · refine hremoves.listing? ?_ (h.blocks blk hm)
    rintro rfl
    exact hnot (mem_map.mpr ⟨blk, hm, rfl⟩)
  · have hne : other ≠ id := by
      rintro rfl
      exact (List.Nodup.not_mem_erase (h.nodup.sublist (sublist_append_right ..))) hm
    exact hremoves.listing? hne (h.pending other (mem_of_mem_erase hm))
  · refine h.operands blk hm instr hi opd hopd inside ?_
    rw [hremoves.shape] at hin
    split at hin
    · cases hin
    · exact hin

end

end Draws

end Builder

end Shading
