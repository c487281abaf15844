import Shading.Lowering.State
import Shading.Proofs.Lowering.Graph

/-!
# Actions of lowering and operands

`Lower.Ends action state good bad`: what an action leaves if it succeeds, and
which errors it can give.  `Builder.Grows`: operands that were made stay.  What
the operations of a builder do to the graph it holds is said once here
(`Builder.Draws.newRegister` and so on).
-/

namespace Shading

open List

variable {id : ObjectId} {type : ValueType} {ir : Builder} {val : Value} {st : LoweringState}

/-! ## Actions and their errors -/

namespace Lower

variable {α β : Type}

/-- What lowering makes of a result of the builder. -/
def ofBuild (st : LoweringState) : Except IrError α × Builder → Except LoweringError (α × LoweringState)
  | (.ok a, ir) => .ok (a, { st with builder := ir })
  | (.error error, _) => .error (.ir error)

lemma build_run (act : Build α) (st : LoweringState) :
    (build act).run st = ofBuild st (act.run.run st.builder) := by
  rw [build, StateT.run_bind, StateT.run_get, pure_bind]
  rcases act.run.run st.builder with ⟨_ | _, _⟩ <;> rfl

lemma build_run_error {act : Build α} {error : IrError}
    (h : act.run.run st.builder = (.error error, ir)) : (build act).run st = .error (.ir error) := by
  rw [build_run, h]
  rfl

/-- What an action leaves, and which errors it can give. -/
def Ends (action : Lower α) (st : LoweringState) (good : α → LoweringState → Prop)
    (bad : LoweringError → Prop) : Prop :=
  match action.run st with
  | .ok (a, later) => good a later
  | .error error => bad error

namespace Ends

variable {x : Lower α} {f : α → Lower β} {between : α → LoweringState → Prop}
  {good : β → LoweringState → Prop} {bad bad' : LoweringError → Prop}

lemma pure {a : α} (h : between a st) : Ends (Pure.pure a) st between bad := h

lemma throw {error : LoweringError} (h : bad error) : Ends (MonadExcept.throw error : Lower α) st between bad := h

lemma read {f : LoweringState → Lower β} (h : Ends (f st) st good bad) :
    Ends (MonadState.get >>= f) st good bad := h

lemma bind (h : Ends x st between bad) (hf : ∀ a later, between a later → Ends (f a) later good bad) :
    Ends (x >>= f) st good bad := by
  unfold Ends at h ⊢
  rw [StateT.run_bind]
  cases hx : x.run st with
  | ok res =>
    rw [hx] at h
    exact hf res.1 res.2 h
  | error error =>
    rw [hx] at h
    exact h

lemma mono {other : α → LoweringState → Prop} (h : Ends x st between bad)
    (hgood : ∀ a later, between a later → other a later) (hbad : ∀ error, bad error → bad' error) :
    Ends x st other bad' := by
  unfold Ends at h ⊢
  split
  · rename_i a later hrun
    rw [hrun] at h
    exact hgood a later h
  · rename_i error hrun
    rw [hrun] at h
    exact hbad error h

/-- What an action leaves is said once more. -/
lemma imp {other : α → LoweringState → Prop} (h : Ends x st between bad)
    (hgood : ∀ a later, between a later → other a later) : Ends x st other bad :=
  h.mono hgood fun _ hbad => hbad

lemma of_error {error : LoweringError} (hx : x.run st = .error error) (h : bad error) : Ends x st between bad := by
  rw [Ends, hx]
  exact h

lemma last (h : Ends x st between bad) : (∀ later, (x.run st).map Prod.snd = .ok later → ∃ a, between a later) ∧
    ∀ error, (x.run st).map Prod.snd = .error error → bad error := by
  unfold Ends at h
  cases hrun : x.run st with
  | ok res =>
    rw [hrun] at h
    refine ⟨fun _ heq => ?_, nofun⟩
    cases heq
    exact ⟨_, h⟩
  | error error =>
    rw [hrun] at h
    refine ⟨nofun, fun _ heq => ?_⟩
    cases heq
    exact h

lemma build {act : Build α} {ok : α → Builder → Prop} {failed : IrError → Builder → Prop}
    (h : Build.Ends act st.builder ok failed) (hgood : ∀ a ir, ok a ir → between a { st with builder := ir })
    (hbad : ∀ error ir, failed error ir → bad (.ir error)) : Ends (Lower.build act) st between bad := by
  unfold Build.Ends at h
  cases hrun : act.run.run st.builder with
  | mk res ir =>
    rw [hrun] at h
    cases res with
    | ok a =>
      rw [Ends, build_run, hrun]
      exact hgood a ir h
    | error error => exact of_error (build_run_error hrun) (hbad error ir h)

lemma gives {act : Build α} {ok : α → Builder → Prop} (h : Build.Gives act st.builder ok)
    (hgood : ∀ a ir, ok a ir → between a { st with builder := ir }) : Ends (Lower.build act) st between bad := by
  have hends : Build.Ends act st.builder ok fun _ _ => False := .of_gives h
  exact .build hends hgood fun _ _ hfalse => hfalse.elim

lemma ignore {left : LoweringState → Prop} (h : Ends x st (fun _ later => left later) bad) :
    Ends (do let _ ← x) st (fun _ later => left later) bad := h.bind fun _ _ hleft => hleft

end Ends

end Lower

/-- Width in bytes of a register for values of a type. -/
def ValueType.registerWidth (type : ValueType) : Nat := (RegisterClass.ofType type).2

namespace Builder

variable {later : Builder}

/-! ## Operands -/

/-- Operands stay. -/
def Grows (ir later : Builder) : Prop :=
  ∀ id kind, ir.shape? id = some kind → kind.block? = none → later.shape? id = some kind

lemma Grows.refl (ir : Builder) : ir.Grows ir := fun _ _ h _ => h

lemma Grows.trans {mid : Builder} (h : ir.Grows mid) (h' : mid.Grows later) : ir.Grows later :=
  fun id kind hk hb => h' id kind (h id kind hk hb) hb

lemma Adds.grows {kind : ObjectKind} (h : ir.Adds id kind later) : ir.Grows later :=
  fun _ _ hk _ => h.shape?_of_some hk

lemma Same.grows (h : ir.Same later) : ir.Grows later := fun id _ hk _ => (h.shape id).trans hk

lemma Appends.grows {tgt : ObjectId} {inst : InstId} {instr : Instruction}
    (h : ir.Appends tgt inst instr later) : ir.Grows later := by
  intro id kind hk hb
  obtain ⟨blk, htgt, hshape⟩ := h.shape
  rw [hshape, if_neg, hk]
  rintro rfl
  rw [htgt] at hk
  cases hk
  cases hb

lemma Removes.grows {blk : Block} (h : ir.Removes id later) (hb : ir.shape? id = some (.block blk)) :
    ir.Grows later := by
  intro other kind hk hnot
  rw [h.shape, if_neg, hk]
  rintro rfl
  rw [hb] at hk
  cases hk
  cases hnot

/-- An object that is not a block. -/
def IsOperand (ir : Builder) (id : ObjectId) : Prop := ∃ kind, ir.shape? id = some kind ∧ kind.block? = none

lemma IsOperand.grows (h : ir.IsOperand id) (hg : ir.Grows later) : later.IsOperand id := by
  obtain ⟨kind, hk, hb⟩ := h
  exact ⟨kind, hg id kind hk hb, hb⟩

lemma not_isOperand_of_fresh (h : ir.object? id = none) : ¬ ir.IsOperand id := by
  rintro ⟨kind, hk, -⟩
  obtain ⟨obj, ho, -⟩ := object?_of_shape? hk
  rw [h] at ho
  cases ho

/-- A register for values of a type. -/
def IsRegister (ir : Builder) (id : ObjectId) (type : ValueType) : Prop :=
  ∃ number, ir.shape? id = some (.register ⟨number, (RegisterClass.ofType type).1, type.registerWidth⟩)

lemma IsRegister.grows (h : ir.IsRegister id type) (hg : ir.Grows later) : later.IsRegister id type := by
  obtain ⟨num, hr⟩ := h
  exact ⟨num, hg id _ hr rfl⟩

lemma IsRegister.isOperand (h : ir.IsRegister id type) : ir.IsOperand id := by
  obtain ⟨num, hr⟩ := h
  exact ⟨_, hr, rfl⟩

/-- A register that was not there before. -/
structure NewRegister (ir : Builder) (id : ObjectId) (type : ValueType) (later : Builder) : Prop where
  fresh : ¬ ir.IsOperand id
  register : later.IsRegister id type
  grows : ir.Grows later

/-- An immediate operand with a value of a type. -/
def IsLiteral (ir : Builder) (id : ObjectId) (value : Value) (type : ValueType) : Prop :=
  ∃ operand, ir.shape? id = some (.immediate operand) ∧
    operand.key = ImmediateOperand.key ⟨value, (RegisterClass.ofType type).1, type.registerWidth, some type⟩

lemma IsLiteral.grows (h : ir.IsLiteral id val type) (hg : ir.Grows later) : later.IsLiteral id val type := by
  obtain ⟨opd, hshape, hkey⟩ := h
  exact ⟨opd, hg id _ hshape rfl, hkey⟩

lemma IsLiteral.isOperand (h : ir.IsLiteral id val type) : ir.IsOperand id := by
  obtain ⟨opd, hshape, -⟩ := h
  exact ⟨_, hshape, rfl⟩

/-- A register or an immediate. -/
def IsValue (ir : Builder) (id : ObjectId) : Prop :=
  (∃ reg, ir.shape? id = some (.register reg)) ∨ ∃ operand, ir.shape? id = some (.immediate operand)

lemma IsRegister.isValue (h : ir.IsRegister id type) : ir.IsValue id := by
  obtain ⟨num, hr⟩ := h
  exact .inl ⟨_, hr⟩

lemma IsLiteral.isValue (h : ir.IsLiteral id val type) : ir.IsValue id := by
  obtain ⟨opd, hshape, -⟩ := h
  exact .inr ⟨_, hshape⟩

lemma IsValue.isOperand (h : ir.IsValue id) : ir.IsOperand id := by
  rcases h with ⟨reg, hr⟩ | ⟨opd, ho⟩
  · exact ⟨_, hr, rfl⟩
  · exact ⟨_, ho, rfl⟩

lemma IsValue.grows (h : ir.IsValue id) (hg : ir.Grows later) : later.IsValue id := by
  rcases h with ⟨reg, hr⟩ | ⟨opd, ho⟩
  · exact .inl ⟨reg, hg id _ hr rfl⟩
  · exact .inr ⟨opd, hg id _ ho rfl⟩

lemma IsValue.not_memory (h : ir.IsValue id) (mem : MemoryOperand) : ir.shape? id ≠ some (.memory mem) := by
  intro hk
  rcases h with ⟨reg, hr⟩ | ⟨opd, ho⟩
  · rw [hr] at hk
    cases hk
  · rw [ho] at hk
    cases hk

end Builder

/-! ## Operations on a graph -/

namespace Builder

/-- A block whose code is empty has no instructions. -/
lemma Sound.instructions_of_listing? {blk : Block} (h : ir.Sound [] [] [] [])
    (hb : ir.block? id = some blk) (hlisting : ir.listing? id = some []) : blk.instructions = [] := by
  rw [listing?, hb, Option.bind_some] at hlisting
  refine eq_nil_iff_forall_not_mem.mpr fun inst hm => ?_
  obtain ⟨refs, ho⟩ := object?_of_block? hb
  obtain ⟨instr, hi⟩ := Arena.contains_iff.mp ((h.nodup_placed ho).1 inst hm)
  obtain ⟨slot, hslot, rfl⟩ := mem_filterMap.mp hm
  exact absurd ((mem_of_resolve? hlisting instr).mpr ⟨inst, hslot, hi⟩) not_mem_nil

namespace Draws

variable {g : Graph} {order : List ObjectId} {base : ObjectId}

section

variable (h : ir.Draws g order base)
include h

lemma newRegister (type : ValueType) : Build.Ends (Build.newRegisterFor type) ir
    (fun id later => later.Draws g order base ∧ ir.NewRegister id type later) ir.OutOfRoom := by
  refine (Build.allocRegister_ends (fun hg => absurd rfl hg) h.sound h.ordered _ _).mono ?_ fun _ _ hbad => hbad
  rintro id later ⟨hs, ho, hadds⟩
  exact ⟨h.addOperand hs hadds ho rfl, not_isOperand_of_fresh hadds.fresh, ⟨_, hadds.self⟩, hadds.grows⟩

lemma newMemory (off : Int32) : Build.Ends (Build.newMemory base none off) ir
    (fun id later => later.Draws g order base ∧ ir.Grows later ∧
      later.shape? id = some (.memory ⟨base, none, off⟩)) ir.OutOfRoom := by
  refine (Build.newMemory_ends (fun hg => absurd rfl hg) h.sound h.ordered off).mono ?_ fun _ _ hbad =>
    hbad.outOfRoom fun name hm => ?_
  · rintro id later ⟨hs, ho, hadds⟩
    exact ⟨h.addOperand hs hadds ho rfl, hadds.grows, hadds.self⟩
  · obtain rfl : name = base := mem_singleton.mp hm
    obtain ⟨reg, hr⟩ := h.base
    exact ⟨reg, kind?_of_shape? hr rfl⟩

/-- An immediate is new or one with the same key. -/
lemma newImmediate (val : Value) (type : ValueType) : Build.Ends (Build.newImmediateFor val type) ir
      (fun id later => later.Draws g order base ∧ ir.Grows later ∧ later.IsLiteral id val type) ir.OutOfRoom := by
  refine (Build.internImmediate_ends (fun hg => absurd rfl hg) h.sound h.ordered _).mono ?_ fun _ _ hbad =>
    hbad.outOfRoom trivial
  rintro id later ⟨hs, ho, ⟨rfl, hlookup, -⟩ | ⟨mid, hadds, rfl⟩⟩
  · obtain ⟨first, rest, heq, -⟩ := lookup_eq_some_iff.mp hlookup
    obtain ⟨opd, hshape, hkey⟩ := h.interned _ (heq ▸ mem_append_right _ (.head _))
    exact ⟨h, .refl _, opd, hshape, hkey⟩
  · have hmid := h.addOperand (hs.congr rfl rfl rfl rfl rfl : mid.Sound [] [] [] []) hadds
      (ho.congr (fun _ => rfl) rfl rfl) rfl
    exact ⟨hmid.intern hs hadds.self ho (by rw [hadds.immediates]), hadds.grows, _, hadds.self, rfl⟩

lemma newBlock : Build.Ends Build.newBlock ir
    (fun id later => later.Draws (g.add id) (order ++ [id]) base ∧ ir.Grows later ∧ id ∉ g.ids) ir.OutOfRoom := by
  refine (Build.newBlock_ends (fun hg => absurd rfl hg) h.sound h.ordered).mono ?_ fun _ _ hbad =>
    hbad.outOfRoom trivial
  rintro id later ⟨hs, ho, hadds⟩
  refine ⟨h.addBlock hs hadds ho rfl, hadds.grows, fun hm => ?_⟩
  obtain ⟨blk, hblk⟩ := h.shape?_block hm
  obtain ⟨obj, hobj, -⟩ := object?_of_shape? hblk
  rw [hadds.fresh] at hobj
  cases hobj

lemma moveToEnd (hp : id ∈ g.pending) : Build.Gives (Build.moveToEnd id) ir
    fun _ later => later.Draws g (order.erase id ++ [id]) base ∧ ir.Grows later := by
  obtain ⟨blk, hb⟩ := h.exists_block (Graph.mem_ids_of_pending hp)
  have hperm : (order.erase id ++ [id]).Perm order := by
    have hm : id ∈ order := h.ordered.complete id blk hb
    exact perm_append_comm.trans (perm_cons_erase hm).symm
  have hsublist : (g.blocks.map Prod.fst).Sublist (order.erase id ++ [id]) := by
    have herase := h.sublist.erase id
    rw [erase_of_not_mem (h.not_mem_blocks_of_pending hp)] at herase
    exact herase.trans (sublist_append_left ..)
  refine (Build.moveToEnd_ordered h.ordered hb).mono ?_
  rintro - later ⟨ho, hunlinked⟩
  have hsame : ir.Same later := .of_unlinked hunlinked
  exact ⟨h.same (h.sound.relink hunlinked) hsame ho hperm hsublist, hsame.grows⟩

lemma deleteBlock (hp : id ∈ g.pending) (hrefs : ir.refs? id = some 0) :
    Build.Gives (Build.deleteObject id) ir fun _ later =>
      later.Draws (g.drop id) (order.erase id) base ∧ ir.Grows later := by
  obtain ⟨blk, hb⟩ := h.exists_block (Graph.mem_ids_of_pending hp)
  have hempty := h.sound.instructions_of_listing? hb (h.pending id hp)
  refine (Build.deleteEmptyBlock_gives h.sound h.ordered hb hempty hrefs (h.entry_ne_of_pending hp)).mono ?_
  rintro - later ⟨hs, ho, hremoves⟩
  exact ⟨h.drop hs hp hremoves ho, hremoves.grows (shape?_of_block? hb)⟩

end

end Draws

end Builder

/-! ## The current block -/

namespace Lower

lemma parts_cases {α β : Type} {a? : Option α} {b? : Option β} (h : a?.isSome = b?.isSome) :
    a? = none ∧ b? = none ∨ ∃ a b, a? = some a ∧ b? = some b := by
  cases a? <;> cases b? <;> simp_all

lemma openBlock_run (h : st.terminated = false) : openBlock.run st = .ok (st.current, st) := by
  change (if st.terminated = true then _ else (do return (← get).current : Lower ObjectId)).run st = _
  rw [h]
  rfl

lemma Ends.congr {α : Type} {x y : Lower α} {good : α → LoweringState → Prop}
    (h : Ends x st good bad) (heq : y.run st = x.run st) : Ends y st good bad := by
  rw [Ends, heq]
  exact h

/-- In an open block an instruction goes to the current one. -/
lemma emitBy_run (act : ObjectId → Build InstId) (h : st.terminated = false) :
    (do let blk ← openBlock; let _ ← build (act blk) : Lower Unit).run st =
      (do let _ ← build (act st.current) : Lower Unit).run st := by
  rw [StateT.run_bind, openBlock_run h]
  rfl

end Lower

end Shading
