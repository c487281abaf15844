import Shading.Proofs.Layout
import Shading.Proofs.Lowering.Program

/-!
# Accesses to the layout

Code that a compile gives fetches only members that can be read and stores only
members that can be written, each as a whole, apart from the result
(`observes_of_compile`).
-/

namespace Shading

variable {tbl : SymbolTable} {layout : Layout}

/-- Accesses that a layout allows.  The result can be stored in any width. -/
def Layout.accesses (layout : Layout) : Accesses where
  reads offset width := ∃ member, layout.HasAt offset member ∧ member.access.isReadable = true ∧
  width.bytes = member.type.size
  writes offset width := (∃ result ∈ layout.members, result.isResult = true ∧
    offset = Int32.ofNat result.offset) ∨
    ∃ member, layout.HasAt offset member ∧ member.access.isWritable = true ∧ width.bytes = member.type.size

lemma AccessWidth.bytes_of_ofBytes? {bytes : Nat} {width : AccessWidth} (h : ofBytes? bytes = some width) :
    width.bytes = bytes := by
  simpa using List.find?_some h

/-! ## Trees -/

/-- Results are stored where the layout wants them. -/
lemma Lower.returns_accesses (h : tbl.ListsMembers layout.members) : Returns tbl layout.accesses := by
  intro off width hoffset
  unfold resultOffset? at hoffset
  split at hoffset
  · rename_i id hresult
    obtain ⟨member, hm, hname, hkind⟩ := h.result id hresult
    rw [hkind] at hoffset
    exact .inl ⟨member, hm, hname, (Option.some.inj hoffset).symm⟩
  · cases hoffset

/-- Uses that were checked are accesses that the layout allows. -/
lemma Node.Readable.permitted {body : Node} (hr : body.Readable tbl .read)
    (ht : body.Typed tbl) (hl : layout.Built) (hsize : layout.size < 2 ^ 31)
    (hlists : tbl.ListsMembers layout.members) : body.Permitted tbl layout.accesses .read := by
  intro use hu off access hkind width hwidth
  obtain ⟨member, hm, rfl, rfl, htype⟩ := hlists.member use.symbol off access hkind
  have hbytes : width.bytes = member.type.size := by
    rw [AccessWidth.bytes_of_ofBytes? hwidth, ValueType.registerWidth_eq, htype]
  have hat := hl.hasAt hsize hm
  refine ⟨fun hreads => ⟨member, hat, hr use hu hreads _ _ hkind, hbytes⟩, fun hwrites =>
    .inr ⟨member, hat, ?_, hbytes⟩⟩
  rcases ht.isWritable hu hwrites with hwritable | hlocal
  · rw [Symbol.isWritable, hkind, Bool.and_eq_true] at hwritable
    exact hwritable.2
  · rw [hkind] at hlocal
    cases hlocal

/-! ## Code -/

namespace Builder

/-- Fetches and stores go to members behind data slot 0 as the layout allows. -/
structure Observes (ir : Builder) (layout : Layout) : Prop where
  fetches : ∀ id ∈ ir.blocks, ∀ code, ir.listing? id = some code → ∀ instr ∈ code,
    ∀ width, instr.opcode.code = .fetch width → ∀ operand ∈ instr.operands, ∀ memory,
      ir.kind? operand = some (.memory memory) →
        ir.dataSlot? 0 = some memory.base ∧ memory.index? = none ∧ layout.accesses.reads memory.offset width
  stores : ∀ id ∈ ir.blocks, ∀ code, ir.listing? id = some code → ∀ instr ∈ code,
    ∀ width, instr.opcode.code = .store width →
      (∃ operand ∈ instr.operands, ∃ memory, ir.kind? operand = some (.memory memory)) ∧
      ∀ operand ∈ instr.operands, ∀ memory, ir.kind? operand = some (.memory memory) →
        ir.dataSlot? 0 = some memory.base ∧ memory.index? = none ∧ layout.accesses.writes memory.offset width

/-- Finished code makes the accesses that are allowed, also without some pure
instructions. -/
lemma Finished.observes {ir later : Builder} {g : Graph} {base : ObjectId}
    (h : ir.Finished layout.accesses g base) (hthins : ir.Thins later) (hlater : later.Prunable [] [] g.names)
    (hcompact : later.Compact) : later.Observes layout := by
  have hslot : later.dataSlot? 0 = some base := by
    rw [dataSlot?, hthins.slots, h.draws.slots]
    rfl
  have hblocks : later.blocks = g.names := hlater.ordered.blocks_eq hlater.sound.objects
  have hinstruction (id : ObjectId) (hm : id ∈ later.blocks) (code : List Instruction)
    (hcode : later.listing? id = some code)
      (instr : Instruction) (hi : instr ∈ code) : ir.Admits layout.accesses base instr := by
    rw [hblocks] at hm
    obtain ⟨blk, hblk, rfl⟩ := List.mem_map.mp hm
    obtain ⟨rest, hrest, hthin⟩ := h.listing? hthins hlater hcompact hblk
    obtain rfl : rest = code := Option.some.inj (hrest.symm.trans hcode)
    exact h.admits instr (List.mem_flatMap.mpr ⟨blk, hblk, hthin.subset hi⟩)
  -- Addresses of the code that is left are those of the code before.
  have hshape (opd : ObjectId) (mem : MemoryOperand) (hk : later.kind? opd = some (.memory mem)) :
      ir.shape? opd = some (.memory mem) := by
    rw [shape?, (hthins.kinds.memory_iff hk).mp rfl]
    rfl
  refine ⟨fun id hm code hcode instr hi width hwidth opd hopd mem hk => ?_,
    fun id hm code hcode instr hi width hwidth => ⟨?_, fun opd hopd mem hk => ?_⟩⟩
  · have hallowed := (hinstruction id hm code hcode instr hi).allowed opd hopd mem (hshape opd mem hk)
    rw [hwidth] at hallowed
    obtain ⟨rfl, hindex, hreads⟩ := hallowed
    exact ⟨hslot, hindex, hreads⟩
  · obtain ⟨opd, hopd, mem, hk⟩ := (hinstruction id hm code hcode instr hi).stores width hwidth
    refine ⟨opd, hopd, mem, ?_⟩
    obtain ⟨inst, hinst⟩ := instruction?_of_listing? hcode hi
    obtain ⟨obj, ho⟩ := hlater.sound.named hinst hopd
    have hlive := kind?_of_object? ho
    rw [hlive, (hthins.kinds.memory_iff hlive).mpr (kind?_of_shape? hk rfl)]
  · have hallowed := (hinstruction id hm code hcode instr hi).allowed opd hopd mem (hshape opd mem hk)
    rw [hwidth] at hallowed
    obtain ⟨rfl, hindex, hwrites⟩ := hallowed
    exact ⟨hslot, hindex, hwrites⟩

end Builder

/-- Each compile that succeeds gives code that reads only readable members and
writes only writable ones and the result. -/
theorem observes_of_compile {source : Source} {layout : Layout} {options : Options} {compilation : Compilation}
    (hl : layout.Built)
    (hsize : layout.size < 2 ^ 31) (h : (compile source layout options).result = .ok compilation) :
    compilation.builder.Observes layout := by
  obtain ⟨program, simplified, lowered, hstages⟩ := compilesTo_of_compile h
  have hlists : program.symbols.ListsMembers layout.members :=
    (SymbolTable.ListsMembers.ofLayout layout).extends (Program.wellRead_of_parse hl hstages.parse).grows
  obtain ⟨-, hleft⟩ := Program.functionLeft_of_simplify hl hstages.parse hstages.simplify
  obtain ⟨graph, base, hfinished, hthins, hprunable, hcompact⟩ :=
    hstages.finished hl (Lower.returns_accesses hlists) fun function body hmain => by
      obtain ⟨hm, symbol, hform⟩ := Program.form_of_entryFunction? hmain
      obtain ⟨sym', parameters, body', hform', hbody⟩ := hleft function hm
      cases hform.symm.trans hform'
      exact hbody.readable.permitted hbody.typed hl hsize hlists
  exact hfinished.observes hthins hprunable hcompact

/-- `a:double:ro b:int:rw c:float:wo @ret:int:wo`. -/
def Layout.mixed : Layout :=
  ⟨[⟨"a", .double, 0, .readOnly⟩, ⟨"b", .int, 8, .readWrite⟩, ⟨"c", .float, 12, .writeOnly⟩,
    ⟨resultName, .int, 16, .writeOnly⟩], 20⟩

lemma Layout.built_mixed : mixed.Built := by
  let a : Member := ⟨"a", .double, 0, .readOnly⟩
  let b : Member := ⟨"b", .int, 8, .readWrite⟩
  let c : Member := ⟨"c", .float, 12, .writeOnly⟩
  have ha : empty.add "a" .double .readOnly = .ok (a, ⟨[a], 8⟩) := by decide +kernel
  have hb : (⟨[a], 8⟩ : Layout).add "b" .int .readWrite = .ok (b, ⟨[a, b], 12⟩) := by decide +kernel
  have hc : (⟨[a, b], 12⟩ : Layout).add "c" .float .writeOnly = .ok (c, ⟨[a, b, c], 16⟩) := by decide +kernel
  have hresult : (⟨[a, b, c], 16⟩ : Layout).add resultName .int .writeOnly =
      .ok (⟨resultName, .int, 16, .writeOnly⟩, mixed) := by decide +kernel
  exact .add (.add (.add (.add .empty (ValueType.valid_scalar .double) ha) (ValueType.valid_scalar .int) hb)
    (ValueType.valid_scalar .float) hc) (ValueType.valid_scalar .int) hresult

/-- Members that are read, written and both, and one that is hidden by a local. -/
def Source.allAccesses :
    Source := ⟨.memory, ("int main() \x7b b += 2; c = a; \x7b int a = b; b = a * 2; \x7d return b++; \x7d").toList⟩

theorem observes_of_compile_allAccesses : ∃ compilation, (compile .allAccesses .mixed .standard).result =
    .ok compilation ∧
    Layout.mixed.size < 2 ^ 31 ∧ compilation.builder.instructions.live = 17 ∧
    compilation.builder.Observes .mixed := by
  have hrun : ((compile .allAccesses .mixed .standard).result.toOption.map fun compilation =>
      compilation.builder.instructions.live) = some 17 := by decide +kernel
  cases h : (compile .allAccesses .mixed .standard).result with
  | error error =>
    rw [h] at hrun
    cases hrun
  | ok compilation =>
    rw [h] at hrun
    exact ⟨compilation, rfl, by decide, Option.some.inj hrun, observes_of_compile Layout.built_mixed (by decide) h⟩

end Shading
