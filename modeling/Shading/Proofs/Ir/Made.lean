import Shading.Ir.Prune
import Shading.Ir.Text
import Shading.Proofs.Monad

/-!
# What operations are made of

Every operation of a builder is made of a few: an entry of an arena is stored,
changed or removed, or a part of the builder that is not an arena is set.
`Build.Made` says so, with the number of entries that are stored at most.  What
holds of the few and passes on to operations in a row holds of all.

Nothing but storing an entry depends on the limit of a builder.
-/

namespace Shading

open Build

/-- The arena with another limit. -/
def Arena.under {α : Type} (arena : Arena α) (limit? : Option Nat) : Arena α := { arena with limit? }

namespace Builder

/-- The builder with another limit. -/
def under (ir : Builder) (limit? : Option Nat) : Builder :=
  { ir with objects := ir.objects.under limit?, instructions := ir.instructions.under limit? }

variable (ir : Builder) (lim? : Option Nat)

lemma blocksFrom_under (bound : Nat) (id? : Option ObjectId) :
    (ir.under lim?).blocksFrom bound id? = ir.blocksFrom bound id? := by
  induction bound generalizing id? with
  | zero => cases id? <;> rfl
  | succ bound ih =>
    cases id? with
    | none => rfl
    | some id => exact congrArg (id :: ·) (ih _)

lemma blocks_under : (ir.under lim?).blocks = ir.blocks := ir.blocksFrom_under lim? _ _

lemma text_under (paint : Paint → String → String) : (ir.under lim?).text paint = ir.text paint := by
  unfold text lines
  rw [blocks_under]
  rfl

end Builder

namespace Build

/-- What storing an object gives. -/
def stored (ir : Builder) : Option (ObjectId × Arena Object) → Except IrError ObjectId × Builder
  | some (id, objects) => (.ok id, { ir with objects })
  | none => (.error .outOfMemory, ir)

lemma allocObject_run (kind : ObjectKind) (ir : Builder) :
    (allocObject kind).run.run ir = stored ir (ir.objects.alloc ⟨kind, 0⟩) := by
  rw [allocObject, ExceptT.run_bind_of_ok (rfl : (get : Build Builder).run.run ir = (.ok ir, ir))]
  cases ir.objects.alloc ⟨kind, 0⟩ <;> rfl

/-- An instruction is stored, and the work goes on. -/
def withInstruction {β : Type} (instr : Instruction) (next : InstId → Build β) : Build β := do
  let ir ← get
  match ir.instructions.alloc instr with
  | none => MonadExcept.throw IrError.outOfMemory
  | some (id, instructions) =>
    set { ir with instructions }
    next id

lemma withInstruction_run {β : Type} (instr : Instruction) (next : InstId → Build β) (ir : Builder) :
    (withInstruction instr next).run.run ir = (ir.instructions.alloc instr).elim (.error .outOfMemory, ir)
    fun stored =>
      (next stored.1).run.run { ir with instructions := stored.2 } := by
  rw [withInstruction, ExceptT.run_bind_of_ok (rfl : (get : Build Builder).run.run ir = (.ok ir, ir))]
  cases ir.instructions.alloc instr <;> rfl

/-- The operation is made of those on arenas and links, and stores at most so
many entries. -/
inductive Made : {α : Type} → Nat → Build α → Prop
  | mono {α : Type} {x : Build α} {m n : Nat} (h : Made m x) (hle : m ≤ n) : Made n x
  | pure {α : Type} (a : α) {n : Nat} : Made n (Pure.pure a : Build α)
  | throw {α : Type} {error : IrError} {n : Nat} (h : error ≠ .outOfMemory) :
      Made n (MonadExcept.throw error : Build α)
  | bind {α β : Type} {x : Build α} {f : α → Build β} {m n : Nat} (hx : Made m x) (hf : ∀ a, Made n (f a)) :
      Made (m + n) (x >>= f)
  | read {β : Type} {f : Builder → Build β} {n : Nat} (hf : ∀ ir, Made n (f ir))
      (hsame : ∀ ir limit?, f (Builder.under ir limit?) = f ir) : Made n (get >>= f)
  | links {f : Builder → Builder} {n : Nat} (hf : ∀ ir limit?, (f ir).objects = ir.objects ∧
      (f ir).instructions = ir.instructions ∧ f (Builder.under ir limit?) = (f ir).under limit?) : Made n
      (modify f : Build Unit)
  | modifyObject (id : ObjectId) (f : Object → Object) {n : Nat} : Made n (modifyObject id f)
  | freeObject (id : ObjectId) {n : Nat} : Made n (freeObject id)
  | freeInstruction (id : InstId) {n : Nat} :
      Made n (modify fun ir => { ir with instructions := ir.instructions.erase id } : Build Unit)
  | allocObject (kind : ObjectKind) : Made 1 (allocObject kind)
  | allocInstruction {β : Type} (instr : Instruction) {next : InstId → Build β} (hnext : ∀ id, Made 0 (next id)) :
      Made 1 (withInstruction instr next)

namespace Made

variable {α β : Type} {n : Nat}

lemma fail (fault : BuilderFault) : Made n (fail fault : Build α) := throw (by simp)

/-- Operations that store nothing. -/
lemma skip {x : Build α} {f : α → Build β} (hx : Made 0 x) (hf : ∀ a, Made n (f a)) : Made n (x >>= f) :=
  mono (bind hx hf) (by omega)

lemma forM {f : α → Build Unit} (hf : ∀ a, Made 0 (f a)) (list : List α) : Made 0 (list.forM f) := by
  induction list with
  | nil => exact pure ()
  | cons a rest ih => exact skip (hf a) fun _ => ih

lemma repeated {f : α → Build Unit} (hf : ∀ a, Made n (f a)) (list : List α) : Made (list.length * n)
    (list.forM f) := by
  induction list with
  | nil => exact pure ()
  | cons a rest ih =>
    exact mono (bind (hf a) fun _ => ih) (Nat.le_of_eq (by rw [List.length_cons, Nat.succ_mul, Nat.add_comm]))

/-! ### Objects -/

lemma object (id : ObjectId) : Made 0 (object id) := by
  refine read (fun ir => ?_) fun _ _ => rfl
  cases ir.object? id with
  | none => exact fail _
  | some object => exact pure object

lemma block (id : ObjectId) : Made 0 (block id) := by
  refine skip (object id) fun object => ?_
  cases object.kind with
  | block block => exact pure block
  | _ => exact fail _

lemma register (id : ObjectId) : Made 0 (register id) := by
  refine skip (object id) fun object => ?_
  cases object.kind with
  | register register => exact pure register
  | _ => exact fail _

lemma modifyBlock (id : ObjectId) (f : Block → Block) : Made 0 (modifyBlock id f) :=
  skip (block id) fun _ => modifyObject id _

lemma retain (id : ObjectId) : Made 0 (retain id) := skip (object id) fun _ => modifyObject id _

lemma allocRegister (registerClass : RegisterClass) (width : Nat) : Made 1 (allocRegister registerClass width) :=
  skip (links fun _ _ => ⟨rfl, rfl, rfl⟩) fun _ => read (fun _ => allocObject _) fun _ _ => rfl

lemma newRegisterFor (type : ValueType) : Made 1 (newRegisterFor type) := allocRegister _ _

lemma newMemory (base : ObjectId) (off : Int32) : Made 1 (newMemory base none off) :=
  skip (register base) fun _ => bind (n := 0) (allocObject _) fun id => skip (retain base) fun _ => pure id

lemma newImmediateFor (val : Value) (type : ValueType) : Made 1 (newImmediateFor val type) := by
  refine read (fun ir => ?_) fun _ _ => rfl
  split
  · exact pure _
  · exact bind (n := 0) (allocObject _) fun id => skip (links fun _ _ => ⟨rfl, rfl, rfl⟩) fun _ => pure id

/-! ### Blocks -/

lemma linkLast (id : ObjectId) : Made 0 (linkLast id) := by
  refine read (fun ir => skip (modifyBlock id _) fun _ => ?_) fun _ _ => rfl
  cases ir.last? with
  | none => exact skip (links fun _ _ => ⟨rfl, rfl, rfl⟩) fun _ => links fun _ _ => ⟨rfl, rfl, rfl⟩
  | some previous => exact skip (modifyBlock previous _) fun _ => links fun _ _ => ⟨rfl, rfl, rfl⟩

lemma linkFirst (id : ObjectId) : Made 0 (linkFirst id) := by
  refine read (fun ir => skip (modifyBlock id _) fun _ => ?_) fun _ _ => rfl
  cases ir.first? with
  | none => exact skip (links fun _ _ => ⟨rfl, rfl, rfl⟩) fun _ => links fun _ _ => ⟨rfl, rfl, rfl⟩
  | some next => exact skip (modifyBlock next _) fun _ => links fun _ _ => ⟨rfl, rfl, rfl⟩

lemma unlink (id : ObjectId) : Made 0 (unlink id) := by
  refine skip (block id) fun removed => skip (modifyBlock id _) fun _ => ?_
  have hlast (prev? : Option ObjectId) : Made 0 (modify fun ir => { ir with last? := prev? }) :=
    links fun _ _ => ⟨rfl, rfl, rfl⟩
  cases removed.prev? with
  | none =>
    refine skip (links fun _ _ => ⟨rfl, rfl, rfl⟩) fun _ => ?_
    cases removed.next? with
    | none => exact hlast none
    | some next => exact modifyBlock next _
  | some previous =>
    refine skip (modifyBlock previous _) fun _ => ?_
    cases removed.next? with
    | none => exact hlast (some previous)
    | some next => exact modifyBlock next _

lemma allocBlock (kind : BlockKind) : Made 1 (allocBlock kind) :=
  read (fun _ => bind (n := 0) (allocObject _) fun id => skip (links fun _ _ => ⟨rfl, rfl, rfl⟩)
    fun _ => pure id) fun _ _ => rfl

lemma newBlock : Made 1 newBlock := bind (n := 0) (allocBlock .basic) fun id => skip (linkLast id) fun _ => pure id

lemma initEntry : Made 1 initEntry := by
  refine read (fun ir => ?_) fun _ _ => rfl
  split
  · exact throw (by decide)
  · exact bind (n := 0) (allocBlock .entry) fun id => skip (linkFirst id) fun _ => skip (retain id) fun _ =>
      skip (links fun _ _ => ⟨rfl, rfl, rfl⟩) fun _ => pure id

lemma moveToEnd (id : ObjectId) : Made 0 (moveToEnd id) := by
  refine read (fun ir => ?_) fun _ _ => rfl
  split
  · exact skip (unlink id) fun _ => linkLast id
  · exact pure ()

lemma fixupBlocks : Made 0 fixupBlocks :=
  read (fun _ => forM (fun id => modifyBlock id _) _) fun ir lim? => by rw [ir.blocks_under lim?]

/-! ### Instructions -/

lemma emit (tgt : ObjectId) (opcode : Opcode) (opds : List ObjectId) : Made 1 (Build.emit tgt opcode opds) := by
  unfold Build.emit
  split
  · exact fail _
  · refine skip (block tgt) fun _ => skip (forM (fun opd => skip (object opd) fun _ => pure ()) opds) fun _ => ?_
    exact allocInstruction _ fun id => skip (forM retain opds) fun _ => skip (modifyBlock tgt _) fun _ => pure id

lemma emitMove (tgt dst src : ObjectId) : Made 1 (emitMove tgt dst src) := by
  refine skip (register dst) fun destination => skip (register src) fun source => ?_
  split
  · exact emit tgt _ _
  · exact fail _

lemma emitFetch (tgt dst src : ObjectId) : Made 1 (emitFetch tgt dst src) := by
  refine skip (register dst) fun destination => skip (object src) fun object => ?_
  split
  iterate 2
    split
    · exact emit tgt _ _
    · exact fail _
  · exact fail _

lemma emitStore (tgt dst src : ObjectId) : Made 1 (emitStore tgt dst src) := by
  refine skip (register src) fun source => skip (object dst) fun object => ?_
  split
  · split
    · exact emit tgt _ _
    · exact fail _
  · exact fail _

/-! ### Removing -/

lemma releaseWith {delete : ObjectId → Build Unit} (hdelete : ∀ id, Made 0 (delete id)) (id : ObjectId) :
    Made 0 (releaseWith delete id) := by
  refine skip (object id) fun object => ?_
  split
  · exact fail _
  · refine skip (modifyObject id _) fun _ => ?_
    split
    · exact hdelete id
    · exact pure ()

lemma deleteInstWith {delete : ObjectId → Build Unit} (hdelete : ∀ id, Made 0 (delete id)) (id : InstId) :
    Made 0 (deleteInstWith delete id) := by
  refine read (fun ir => ?_) fun _ _ => rfl
  split
  · exact fail _
  · refine skip (forM (fun opd => read (fun ir => ?_) fun _ _ => rfl) _) fun _ => freeInstruction id
    split
    · exact releaseWith hdelete opd
    · exact pure ()

lemma deleteUpTo (bound : Nat) (id : ObjectId) : Made 0 (deleteUpTo bound id) := by
  induction bound generalizing id with
  | zero => exact pure ()
  | succ bound ih =>
    refine skip (object id) fun object => ?_
    split
    · exact freeObject id
    · exact skip (links fun _ _ => ⟨rfl, rfl, rfl⟩) fun _ => freeObject id
    · rename_i opd _
      refine skip (releaseWith ih _) fun _ => ?_
      cases opd.index? with
      | none => exact freeObject id
      | some index => exact skip (releaseWith ih index) fun _ => freeObject id
    · refine skip (unlink id) fun _ => skip (freeObject id) fun _ =>
        skip (links fun ir lim? => ⟨?_, ?_, ?_⟩) fun _ => forM (deleteInstWith ih) _
      · split <;> rfl
      · split <;> rfl
      · change (if ir.entryBlock? = some id then _ else _) = Builder.under (if _ then _ else _) lim?
        split <;> rfl

lemma deleteObject (id : ObjectId) : Made 0 (deleteObject id) := read (fun _ => deleteUpTo _ id) fun _ _ => rfl

lemma removeInst (tgt : ObjectId) (slot : Nat) : Made 0 (removeInst tgt slot) := by
  refine skip (block tgt) fun pre => ?_
  split
  · exact fail _
  · exact skip (modifyBlock tgt _) fun _ => deleteInstWith deleteObject _

/-! ### Pruning -/

lemma sumM {f : α → Build Nat} (hf : ∀ a, Made 0 (f a)) (list : List α) : Made 0 (sumM f list) := by
  induction list with
  | nil => exact pure 0
  | cons a rest ih => exact skip (hf a) fun _ => skip ih fun _ => pure _

lemma pruneSlot (tgt : ObjectId) (slot : Nat) (id? : Option InstId) : Made 0 (pruneSlot tgt slot id?) := by
  cases id? with
  | none => exact pure 0
  | some id =>
    refine read (fun ir => ?_) fun _ _ => rfl
    split
    · exact skip (removeInst tgt slot) fun _ => pure 1
    · exact pure 0

lemma pruneBlocks : Made 0 pruneBlocks := by
  refine read (fun _ => sumM (fun tgt => read (fun ir => ?_) fun _ _ => rfl) _) fun ir lim? => by
    rw [ir.blocks_under lim?]
  cases ir.block? tgt with
  | none => exact pure 0
  | some block => exact sumM (fun pair : Option InstId × Nat => pruneSlot tgt pair.2 pair.1) _

lemma pruneUpTo (bound : Nat) : Made 0 (pruneUpTo bound) := by
  induction bound with
  | zero => exact pure 0
  | succ bound ih =>
    refine skip pruneBlocks fun removed => ?_
    split
    · exact pure 0
    · exact skip ih fun _ => pure _

lemma prune : Made 0 prune :=
  read (fun _ => skip (pruneUpTo _) fun _ => skip fixupBlocks fun _ => pure _) fun _ _ => rfl

end Made

end Build

end Shading
