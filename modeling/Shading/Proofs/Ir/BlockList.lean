import Shading.Proofs.Ir.Advance

/-!
# The list of blocks

Whatever a caller does with a builder, and whether it succeeds or fails, the
links of the blocks spell a list of the live blocks (`Builder.ListsBlocks`),
which each command edits as it would edit a plain list (`Command.Edits`).
Numbers of blocks and registers are given once.
-/

namespace Shading

open List

variable {α : Type} {ir builder later : Builder} {order : List ObjectId} {act : Build α} {id : ObjectId}

/-! ## Everything a caller can do -/

/-- An operation, with any arguments, the removal of an instruction by its
handle, or the removal of everything. -/
inductive Command where
  | operation (inside : Operation)
  | deleteInst (inst : InstId)
  | clear

def Command.perform : Command → Build Unit
  | operation inside => inside.perform
  | deleteInst inst => Build.deleteInst inst
  | clear => Build.clear

namespace Builder

/-- Builders that a caller can come to. -/
inductive Used (slots : Nat) (limit? : Option Nat) : Builder → Prop where
  | create {ir : Builder} (h : create slots limit? = .ok ir) : Used slots limit? ir
  | step {ir : Builder} (command : Command) (h : Used slots limit? ir) :
    Used slots limit? (command.perform.run.run ir).2

/-- Builders that a caller can come to from another. -/
inductive Follows (ir : Builder) : Builder → Prop where
  | refl : Follows ir ir
  | step {later : Builder} (command : Command) (h : Follows ir later) :
    Follows ir (command.perform.run.run later).2

/-- The links spell the list of the live blocks. -/
structure ListsBlocks (ir : Builder) : Prop where
  first : ir.first? = ir.blocks.head?
  last : ir.last? = ir.blocks.getLast?
  ends : ir.first? = none ↔ ir.last? = none
  nodup : ir.blocks.Nodup
  live : ∀ id, id ∈ ir.blocks ↔ ∃ block, ir.block? id = some block
  next : ∀ id block index, ir.blocks[index]? = some id → ir.block? id = some block →
    block.next? = ir.blocks[index + 1]?
  inverse : ∀ a b block block', ir.block? a = some block → ir.block? b = some block' →
    (block.next? = some b ↔ block'.prev? = some a)

end Builder

/-- How a command edits the list of blocks.  What removes objects leaves the
blocks that live on, in their order. -/
def Command.Edits : Command → Builder → Except IrError Unit → Builder → Prop
  | .operation .newBlock, ir, .ok _, later => ∃ id, (Build.newBlock.run.run ir).1 = .ok id ∧
    ir.object? id = none ∧ later.blocks = ir.blocks ++ [id]
  | .operation .initEntry, ir, .ok _, later => ∃ id, (Build.initEntry.run.run ir).1 = .ok id ∧
    ir.object? id = none ∧ later.blocks = id :: ir.blocks
  | .operation (.moveToEnd id), ir, .ok _, later => id ∈ ir.blocks ∧ later.blocks = ir.blocks.erase id ++ [id]
  | .operation (.removeInst _ _), ir, _, later | .operation (.deleteBlock _), ir, _, later
  | .operation (.release _), ir, _, later | .deleteInst _, ir, _, later | .clear, ir, _, later =>
    later.blocks = ir.blocks.filter later.objects.contains
  | _, ir, _, later => later.blocks = ir.blocks

/-! ## Every command -/

namespace Command

/-- The instruction that an emission puts in a block. -/
def emitted (target : ObjectId) (action : Build InstId) (ir : Builder) : List (ObjectId × InstId) :=
  ((action.run.run ir).1.toOption.map (target, ·)).toList

/-- What a command puts in blocks. -/
def placed (ir : Builder) : Command → List (ObjectId × InstId)
  | operation (.emit target opcode operands) => emitted target (Build.emit target opcode operands) ir
  | operation (.emitMove target dst src) => emitted target (Build.emitMove target dst src) ir
  | operation (.emitFetch target dst src) => emitted target (Build.emitFetch target dst src) ir
  | operation (.emitStore target dst src) => emitted target (Build.emitStore target dst src) ir
  | _ => []

/-- What a command takes out of blocks. -/
def dropped (ir : Builder) : Command → List (ObjectId × InstId)
  | operation (.removeInst target slot) => ((ir.slot? target slot).map (target, ·)).toList
  | _ => []

end Command

namespace Builder

lemma Neat.blocks_eq (h : ir.Neat order) : ir.blocks = order := h.ordered.blocks_eq h.wellFormed

/-- What a command leaves. -/
def Edited (ir : Builder) (command : Command) (result : Except IrError Unit) (later : Builder) : Prop :=
  ∃ order, ir.Advances order (command.placed ir) (command.dropped ir) later ∧ command.Edits ir result later

end Builder

namespace Build

open Builder

variable {α : Type} {cmd : Command}

/-- The action leaves what the command leaves. -/
def Carries (command : Command) (action : Build α) (ir : Builder) : Prop :=
  Ends action ir (fun _ => ir.Edited command (.ok ())) fun error => ir.Edited command (.error error)

/-- A command that leaves the list as it is. -/
lemma edited_of_kept (h : ir.Neat order) (hedits : ∀ res later, later.blocks = ir.blocks → cmd.Edits ir res later)
    (haction : Ends act ir (fun _ => ir.Advances order (cmd.placed ir) (cmd.dropped ir))
      fun _ => ir.Advances order (cmd.placed ir) (cmd.dropped ir)) :
    Carries cmd act ir :=
  haction.mono (fun _ later hlater => ⟨order, hlater,
    hedits _ later (hlater.neat.blocks_eq.trans h.blocks_eq.symm)⟩)
    fun _ later hlater => ⟨order, hlater, hedits _ later (hlater.neat.blocks_eq.trans h.blocks_eq.symm)⟩

section

variable (h : ir.Neat order) (hplaced : cmd.placed ir = [])
  (hedits : ∀ res later, later.blocks = ir.blocks.filter later.objects.contains → cmd.Edits ir res later)

include h hplaced hedits

lemma edited_of_shed
    (haction : Ends act ir (fun _ => ir.Shed order (cmd.dropped ir)) fun _ => ir.Shed order (cmd.dropped ir)) :
    Carries cmd act ir := by
  have hleft {later : Builder} (res : Except IrError Unit) (hshed : ir.Shed order (cmd.dropped ir) later) :
      ir.Edited cmd res later := by
    refine ⟨order.filter later.objects.contains, ?_, hedits res later ?_⟩
    · rw [hplaced]
      exact hshed.fades.advances (hshed.neat h)
    · rw [(hshed.neat h).blocks_eq, h.blocks_eq]
  exact haction.mono (fun _ _ => hleft _) fun _ _ => hleft _

lemma Along.edited (haction : Along Sheds act) (hdropped : cmd.dropped ir = []) : Carries cmd act ir := by
  refine edited_of_shed h hplaced hedits ?_
  rw [hdropped]
  exact (haction ir).mono (fun _ _ hshed => hshed order h) fun _ _ hshed => hshed order h

end

lemma edited_discard (h : Carries cmd act ir) : Carries cmd (discard act) ir :=
  Ends.bind h fun _ _ hlater => .of_gives (.pure hlater)

variable (h : ir.Neat order)

include h

/-- An operation that fails leaves everything as it is. -/
lemma Ends.orSame {x : Build α} {good : α → Builder → Prop} (hends : Ends x ir good fun _ later => later = ir) :
    Ends x ir good fun _ => ir.Advances order [] [] := by
  refine hends.mono (fun _ _ hgood => hgood) ?_
  rintro _ _ rfl
  exact .refl h

lemma edited_of_emitted {x : Build InstId} {target : ObjectId}
    (hplaced : cmd.placed ir = Command.emitted target x ir) (hdropped : cmd.dropped ir = [])
    (hedits : ∀ res later, later.blocks = ir.blocks → cmd.Edits ir res later)
    (hends : Ends x ir (fun inst => ir.Advances order [(target, inst)] []) fun _ later => later = ir) :
    Carries cmd (discard x) ir := by
  refine edited_discard (edited_of_kept h hedits ?_)
  rw [hplaced, hdropped, Command.emitted]
  refine (hends.orSame h).known.mono (fun inst later hgood => ?_) fun error later hbad => ?_
  · rw [hgood.1]
    exact hgood.2
  · rw [hbad.1]
    exact hbad.2

lemma edited_of_added {x : Build ObjectId} {place : ObjectId → List ObjectId}
    (hplaced : cmd.placed ir = []) (hdropped : cmd.dropped ir = [])
    (hfail : ∀ error later, later.blocks = ir.blocks → cmd.Edits ir (.error error) later)
    (hedits : ∀ id later, (x.run.run ir).1 = .ok id → ir.object? id = none → later.blocks = place id →
      cmd.Edits ir (.ok ()) later)
    (hends : Ends x ir (fun id later => ir.object? id = none ∧ ir.Advances (place id) [] [] later)
      fun _ later => later = ir) :
    Carries cmd (discard x) ir := by
  unfold Carries Edited
  rw [hplaced, hdropped]
  refine .bind ((hends.orSame h).known.mono ?_ ?_) fun _ _ hlater => .of_gives (.pure hlater)
  · rintro id later ⟨hrun, hfresh, hadv⟩
    exact ⟨_, hadv, hedits id later (congrArg Prod.fst hrun) hfresh hadv.neat.blocks_eq⟩
  · rintro error later ⟨-, hadv⟩
    exact ⟨order, hadv, hfail error later (hadv.neat.blocks_eq.trans h.blocks_eq.symm)⟩

lemma moveToEnd_edited (id : ObjectId) : Carries (.operation (.moveToEnd id)) (moveToEnd id) ir := by
  refine ((moveToEnd_advances h id).orSame h).mono ?_ fun _ later hlater => ⟨order, hlater,
    hlater.neat.blocks_eq.trans h.blocks_eq.symm⟩
  rintro _ later ⟨hm, hadv⟩
  refine ⟨_, hadv, ?_⟩
  rw [← h.blocks_eq] at hm hadv
  exact ⟨hm, hadv.neat.blocks_eq⟩

lemma command_edited (cmd : Command) : Carries cmd cmd.perform ir := by
  have hstill {act : Build Unit} (hact : Along Stills act) :
      Ends act ir (fun _ => ir.Advances order [] []) fun _ => ir.Advances order [] [] :=
    (hact ir).mono (fun _ _ => Still.advances h) fun _ _ => Still.advances h
  cases cmd with
  | deleteInst inst => exact (deleteInst_shedding inst).edited h rfl (fun _ _ hleft => hleft) rfl
  | clear => exact clear_shedding.edited h rfl (fun _ _ hleft => hleft) rfl
  | operation inside =>
    cases inside with
    | newRegisterFor _ | newRegister _ _ =>
      exact edited_discard (edited_of_kept h (fun _ _ hsame => hsame) (allocRegister_advances h _ _))
    | newMemory base index? off =>
      exact edited_discard (edited_of_kept h (fun _ _ hsame => hsame)
        ((newMemory_advances h base index? off).orSame h))
    | newImmediate val registerClass width | newImmediateFor val type =>
      exact edited_discard (edited_of_kept h (fun _ _ hsame => hsame) ((internImmediate_advances h _).orSame h))
    | newBlock =>
      refine edited_of_added h rfl rfl (fun _ _ hsame => hsame) (fun id later hrun hfresh heq => ⟨id, hrun,
        hfresh, ?_⟩) (newBlock_advances h)
      rw [heq, h.blocks_eq]
    | initEntry =>
      refine edited_of_added h rfl rfl (fun _ _ hsame => hsame) (fun id later hrun hfresh heq => ⟨id, hrun,
        hfresh, ?_⟩) (initEntry_advances h)
      rw [heq, h.blocks_eq]
    | moveToEnd id => exact moveToEnd_edited h id
    | emit tgt opcode opds =>
      exact edited_of_emitted h rfl rfl (fun _ _ hsame => hsame) (emit_advances h tgt opcode opds)
    | emitMove tgt dst src =>
      exact edited_of_emitted h rfl rfl (fun _ _ hsame => hsame)
        (emitMove_ends dst src (fun _ => rfl) fun _ _ => emit_advances h ..)
    | emitFetch tgt dst src =>
      exact edited_of_emitted h rfl rfl (fun _ _ hsame => hsame)
        (emitFetch_ends dst src (fun _ => rfl) fun _ _ => emit_advances h ..)
    | emitStore tgt dst src =>
      exact edited_of_emitted h rfl rfl (fun _ _ hsame => hsame)
        (emitStore_ends dst src (fun _ => rfl) fun _ _ => emit_advances h ..)
    | removeInst tgt slot => exact edited_of_shed h rfl (fun _ _ hleft => hleft) (removeInst_ends h tgt slot)
    | fixupBlocks => exact edited_of_kept h (fun _ _ hsame => hsame) (hstill fixupBlocks_stilling)
    | deleteBlock id => exact (deleteObject_shedding id).edited h rfl (fun _ _ hleft => hleft) rfl
    | retain id => exact edited_of_kept h (fun _ _ hsame => hsame) (hstill (retain_stilling id))
    | release id => exact (release_shedding id).edited h rfl (fun _ _ hleft => hleft) rfl

end Build

namespace Builder

variable {slots : Nat} {lim? : Option Nat}

lemma edited_perform (h : ir.Neat order) (cmd : Command) :
    ir.Edited cmd (cmd.perform.run.run ir).1 (cmd.perform.run.run ir).2 := by
  have hends := Build.command_edited h cmd
  cases hrun : cmd.perform.run.run ir with
  | mk res later =>
    rw [Build.Carries, Build.Ends, hrun] at hends
    cases res with
    | ok _ | error error => exact hends

/-! ## Whole runs -/

lemma neat_empty (lim? : Option Nat) : (empty lim?).Neat [] :=
  ⟨Arena.wellFormed_empty lim?, ⟨listed_empty lim?, nofun⟩, nofun⟩

section Invariant

variable (holds : Builder → Prop) (hempty : holds (empty lim?))
  (hstep : ∀ ir later made? put taken, holds ir → ir.Becomes made? put taken later → holds later)

include hempty hstep

lemma invariant_create (h : create slots lim? = .ok ir) : ir.Neat [] ∧ holds ir := by
  refine (create_induct (fun _ ir => ir.Neat [] ∧ holds ir) ⟨neat_empty lim?, hempty⟩ (fun _ ir hir => ?_) h).2
  refine .bind ((Build.allocRegister_advances hir.1 .general pointerWidth).mono (fun _ _ hgood => hgood)
    fun _ _ _ => trivial) ?_
  intro id mid hadv
  refine .bind ((Build.retain_stilling id mid).mono (fun _ _ => hadv.still) fun _ _ _ => trivial) ?_
  intro _ last hlast
  have hmore := hlast.still (@Still.rest last { last with dataSlots := last.dataSlots ++ [some id] } rfl
    (.refl _) rfl (fun _ h => h) ⟨rfl, rfl⟩ rfl)
  obtain ⟨made?, hbecomes⟩ := hmore.becomes
  exact .of_gives (.of_run rfl ⟨hmore.neat, hstep _ _ _ _ _ hir.2 hbecomes⟩)

/-- What holds of an empty builder, whatever becomes of it. -/
lemma Used.invariant (h : Used slots lim? ir) : (∃ order, ir.Neat order) ∧ holds ir := by
  induction h with
  | create h => exact ⟨⟨[], (invariant_create holds hempty hstep h).1⟩,
      (invariant_create holds hempty hstep h).2⟩
  | step cmd _ ih =>
    obtain ⟨⟨order, hneat⟩, hir⟩ := ih
    obtain ⟨order', hadv, -⟩ := edited_perform hneat cmd
    obtain ⟨made?, hbecomes⟩ := hadv.becomes
    exact ⟨⟨order', hadv.neat⟩, hstep _ _ _ _ _ hir hbecomes⟩

end Invariant

lemma neat_of_create (h : create slots lim? = .ok ir) : ir.Neat [] :=
  (invariant_create (fun _ => True) trivial (fun _ _ _ _ _ _ _ => trivial) h).1

section

variable (h : Used slots lim? ir)
include h

lemma Used.neat : ∃ order, ir.Neat order :=
  (h.invariant (fun _ => True) trivial fun _ _ _ _ _ _ _ => trivial).1

lemma Used.numbered : ir.Numbered :=
  (h.invariant Numbered ⟨nofun, nofun⟩ fun _ _ _ _ _ => Numbered.becomes).2

lemma Used.marked : ir.Marked :=
  (h.invariant Builder.Marked nofun fun _ _ _ _ _ => Marked.becomes).2

lemma Used.follows (hf : ir.Follows later) : Used slots lim? later := by
  induction hf with
  | refl => exact h
  | step cmd _ ih => exact ih.step cmd

lemma Used.becomes (cmd : Command) :
    ∃ made?, ir.Becomes made? (cmd.placed ir) (cmd.dropped ir) (cmd.perform.run.run ir).2 := by
  obtain ⟨order, hneat⟩ := h.neat
  obtain ⟨order', hadv, -⟩ := edited_perform hneat cmd
  exact hadv.becomes

/-- A number that was given is not given to another object. -/
lemma Follows.number? (hf : ir.Follows later) {num : Number}
    (hn : later.number? id = some num) : ir.number? id = some num ∨ ¬ir.Counted num := by
  have hcounted {later : Builder} (hf : ir.Follows later) (num : Number) (hc : ir.Counted num) :
      later.Counted num := by
    induction hf with
    | refl => exact hc
    | step cmd hf ih =>
      obtain ⟨made?, hbecomes⟩ := (h.follows hf).becomes cmd
      exact hbecomes.counted num ih
  induction hf with
  | refl => exact .inl hn
  | step cmd hf ih =>
    obtain ⟨made?, hbecomes⟩ := (h.follows hf).becomes cmd
    rcases hbecomes.number? hn with hold | ⟨-, hnew, -⟩
    · exact ih hold
    · exact .inr fun hc => hnew (hcounted hf num hc)

end

/-! ## The list -/

lemma Chained.links {prev? : Option ObjectId} {index : Nat} (h : ir.Chained prev? order none)
    (hid : order[index]? = some id) : ∃ blk, ir.block? id = some blk ∧ blk.next? = order[index + 1]? ∧
      blk.prev? = if index = 0 then prev? else order[index - 1]? := by
  induction order generalizing prev? index with
  | nil => cases hid
  | cons first rest ih =>
    obtain ⟨hfirst, hrest⟩ := h
    cases index with
    | zero =>
      obtain rfl : first = id := Option.some.inj hid
      obtain ⟨blk, hb, hprev, hnext⟩ := links?_eq_some hfirst
      refine ⟨blk, hb, ?_, hprev⟩
      rw [hnext, Option.or_none, getElem?_cons_succ, head?_eq_getElem?]
    | succ index =>
      rw [getElem?_cons_succ] at hid
      obtain ⟨blk, hb, hnext, hprev⟩ := ih hrest hid
      refine ⟨blk, hb, by rw [hnext, getElem?_cons_succ], ?_⟩
      rw [hprev, if_neg (Nat.succ_ne_zero index), Nat.add_sub_cancel]
      cases index with
      | zero => rfl
      | succ index => rw [if_neg (Nat.succ_ne_zero index), Nat.add_sub_cancel, getElem?_cons_succ]

lemma Neat.listsBlocks (h : ir.Neat order) : ir.ListsBlocks := by
  have hblocks := h.blocks_eq
  have hlinks {id : ObjectId} {index : Nat} (hid : order[index]? = some id) := h.ordered.chained.links hid
  refine ⟨by rw [hblocks, h.ordered.first], by rw [hblocks,
    h.ordered.last], ?_, by rw [hblocks]; exact h.ordered.nodup,
    fun id => ?_, fun id blk index hid hb => ?_, fun a b blk block' hb hb' => ?_⟩
  · rw [h.ordered.first, h.ordered.last, head?_eq_none_iff, getLast?_eq_none_iff]
  · rw [hblocks]
    exact ⟨fun hm => h.ordered.block hm, fun ⟨blk, hb⟩ => h.ordered.complete id blk hb⟩
  · rw [hblocks] at hid ⊢
    obtain ⟨found, hfound, hnext, -⟩ := hlinks hid
    obtain rfl : blk = found := Option.some.inj (hb.symm.trans hfound)
    exact hnext
  · obtain ⟨i, hi⟩ := mem_iff_getElem?.mp (h.ordered.complete a blk hb)
    obtain ⟨j, hj⟩ := mem_iff_getElem?.mp (h.ordered.complete b block' hb')
    obtain ⟨found, hfound, hnext, -⟩ := hlinks hi
    obtain rfl : blk = found := Option.some.inj (hb.symm.trans hfound)
    obtain ⟨found', hfound', -, hprev⟩ := hlinks hj
    obtain rfl : block' = found' := Option.some.inj (hb'.symm.trans hfound')
    obtain ⟨hilt, -⟩ := List.getElem?_eq_some_iff.mp hi
    obtain ⟨hjlt, -⟩ := List.getElem?_eq_some_iff.mp hj
    rw [hnext, hprev, ← hj]
    constructor
    · intro heq
      obtain rfl : j = i + 1 := (getElem?_inj hjlt h.ordered.nodup).mp heq.symm
      rw [if_neg (Nat.succ_ne_zero i), Nat.add_sub_cancel, hi]
    · intro heq
      split at heq
      · cases heq
      · rename_i hne
        obtain rfl : i = j - 1 := (getElem?_inj hilt h.ordered.nodup).mp (hi.trans heq.symm)
        rw [Nat.sub_add_cancel (Nat.pos_of_ne_zero hne)]

/-- The links of the blocks are a list, which commands edit as such.  A number
belongs to one object and is not given again. -/
theorem listsBlocks_of_used {limit? : Option Nat} (h : Used slots limit? builder) : builder.ListsBlocks ∧
    (∀ command : Command, command.Edits builder (command.perform.run.run builder).1
      (command.perform.run.run builder).2) ∧
    builder.Numbered ∧ ∀ later, builder.Follows later → ∀ id number, later.number? id = some number →
      builder.number? id = some number ∨ ¬builder.Counted number := by
  obtain ⟨order, hneat⟩ := h.neat
  refine ⟨hneat.listsBlocks, fun command => ?_, h.numbered, fun later hf id number hnumber => hf.number? h hnumber⟩
  obtain ⟨order', -, hedits⟩ := edited_perform hneat command
  exact hedits

/-- A block is removed while its instruction is, which fails; the block that
was moved to the end stays alone in the list. -/
theorem listsBlocks_of_used_failedRemoval : ∃ builder, Used 1 none builder ∧ builder.blocks = [⟨2, 0⟩] ∧
    builder.ListsBlocks := by
  have hcreated : Used 1 none _ := .create rfl
  have hfirst := hcreated.step (.operation .newBlock)
  have hentry := hfirst.step (.operation .initEntry)
  have hmoved := hentry.step (.operation (.moveToEnd ⟨2, 0⟩))
  have hregister := hmoved.step (.operation (.newRegister .general 4))
  have hmemory := hregister.step (.operation (.newMemory ⟨3, 0⟩ none 0))
  have hemitted := hmemory.step (.operation (.emit ⟨1, 0⟩ (.scalar .ret) [⟨3, 0⟩, ⟨1, 0⟩, ⟨4, 0⟩]))
  have hremoved := hemitted.step (.deleteInst ⟨0, 0⟩)
  exact ⟨_, hremoved, by decide +kernel, (listsBlocks_of_used hremoved).1⟩

end Builder

end Shading
