import Shading.Ir.Teardown
import Shading.Proofs.Ir.Order

/-!
# Counting references

`Builder.nameCount` counts the places of a builder that name an object, and
`Builder.Sound` says that the count an object keeps is this number and what is
held from outside.  While something is built or taken apart, its parts are
accounted for one by one: the names of a `closing` object and of a `loose`
instruction do not count, and whoever works on them holds the references
instead.  Each lemma says what one step of the builder does to this account.
-/

namespace Shading

open Arena
open List hiding contains

variable {id : ObjectId} {obj : Object} {inst : InstId} {instr : Instruction}

namespace ObjectKind

/-- What an object refers to: the registers of a memory operand. -/
def names : ObjectKind → List ObjectId
  | .memory operand => operand.base :: operand.index?.toList
  | _ => []

/-- Instructions in the slots of a block. -/
def placed : ObjectKind → List InstId
  | .block inside => inside.instructions
  | _ => []

@[simp] lemma names_unlinked (kind : ObjectKind) : kind.unlinked.names = kind.names := by
  cases kind <;> rfl

@[simp] lemma placed_unlinked (kind : ObjectKind) : kind.unlinked.placed = kind.placed := by
  cases kind <;> rfl

end ObjectKind

namespace Builder

/-- Operands of the live instructions that are not loose. -/
def operandNames (ir : Builder) (loose : List InstId) : List ObjectId :=
  ir.instructions.collect (·.operands) loose

/-- Registers of the live memory operands that are not closing. -/
def memoryNames (ir : Builder) (closing : List ObjectId) : List ObjectId :=
  ir.objects.collect (·.kind.names) closing

/-- What the builder itself refers to: the data slots and the entry block. -/
def rootNames (ir : Builder) : List ObjectId :=
  ir.dataSlots.filterMap (fun slot => slot) ++ ir.entryBlock?.toList

def nameCount (ir : Builder) (loose : List InstId) (closing : List ObjectId) (id : ObjectId) : Nat :=
  (ir.operandNames loose).count id + (ir.memoryNames closing).count id + ir.rootNames.count id

/-- Instructions in the slots of the live blocks. -/
def placements (ir : Builder) : List InstId := ir.objects.collect (·.kind.placed) []

/-- The account of a builder.  References `held` from outside count, names of
`closing` objects and `loose` instructions do not.  Objects in `gone` were
removed while something still named them. -/
structure Sound (ir : Builder) (held : List ObjectId) (loose : List InstId) (closing gone : List ObjectId) :
    Prop where
  objects : ir.objects.WellFormed
  instructions : ir.instructions.WellFormed
  /-- So few objects that no handle is given twice. -/
  room : gone ≠ [] → ir.objects.allocated < UInt32.size
  refs : ∀ id object, ir.object? id = some object → object.refs = ir.nameCount loose closing id + held.count id
  placed : ∀ id, ir.placements.count id + loose.count id = if ir.instructions.contains id then 1 else 0
  solid : ∀ id, 0 < ir.nameCount loose closing id + held.count id → ir.objects.contains id = true ∨ id ∈ gone
  spent : ∀ id ∈ gone, ir.objects.Spent id
  registers : ∀ id kind, ir.kind? id = some kind → id ∉ closing → ∀ name ∈ kind.names, ∃ register,
    ir.kind? name = some (.register register)
  entry : ir.hadEntry = false → ir.entryBlock? = none

variable {ir later : Builder} {held : List ObjectId} {loose : List InstId} {closing gone : List ObjectId}

lemma contains_iff : ir.objects.contains id = true ↔ ∃ obj, ir.object? id = some obj :=
  Arena.contains_iff

lemma kind?_of_object? (h : ir.object? id = some obj) : ir.kind? id = some obj.kind := by
  rw [kind?, h]
  rfl

/-! ## Counting anew -/

/-- The account changes, and with it who holds what; objects and instructions
stay as they are. -/
lemma Sound.recount {held' closing' : List ObjectId} (h : ir.Sound held loose closing gone)
    (hobjs : later.objects = ir.objects) (hinsts : later.instructions = ir.instructions)
    (hle : ∀ id, later.nameCount loose closing' id + held'.count id ≤ ir.nameCount loose closing id +
      held.count id)
    (heq : ∀ id obj, ir.object? id = some obj →
      later.nameCount loose closing' id + held'.count id = ir.nameCount loose closing id + held.count id)
    (hregisters : ∀ id kind, ir.kind? id = some kind → id ∉ closing' → ∀ name ∈ kind.names, ∃ reg,
      ir.kind? name = some (.register reg))
    (hentry : later.hadEntry = false → later.entryBlock? = none) : later.Sound held' loose closing' gone := by
  have hobj (id : ObjectId) : later.object? id = ir.object? id := by rw [object?, hobjs, object?]
  have hkind (id : ObjectId) : later.kind? id = ir.kind? id := by rw [kind?, hobj, kind?]
  refine ⟨hobjs ▸ h.objects, hinsts ▸ h.instructions, hobjs ▸ h.room, fun id obj ho => ?_, fun id => ?_,
    fun id hpos => ?_, hobjs ▸ h.spent, fun id kind hk hc name hm => ?_, hentry⟩
  · rw [hobj] at ho
    rw [heq id obj ho]
    exact h.refs id obj ho
  · rw [placements, hobjs, hinsts]
    exact h.placed id
  · rw [hobjs]
    exact h.solid id (Nat.lt_of_lt_of_le hpos (hle id))
  · rw [hkind] at hk ⊢
    exact hregisters id kind hk hc name hm

/-- Numbers, names and the ends of the list do not matter. -/
lemma Sound.congr (h : ir.Sound held loose closing gone) (hobjs : later.objects = ir.objects)
    (hinsts : later.instructions = ir.instructions) (hslots : later.dataSlots = ir.dataSlots)
    (hentry : later.entryBlock? = ir.entryBlock?) (hhad : later.hadEntry = ir.hadEntry) :
    later.Sound held loose closing gone := by
  have hcount (id : ObjectId) : later.nameCount loose closing id = ir.nameCount loose closing id := by
    simp only [nameCount, operandNames, memoryNames, rootNames, hobjs, hinsts, hslots, hentry]
  refine h.recount hobjs hinsts (fun id => ?_) (fun id _ _ => ?_) h.registers ?_
  · exact Nat.le_of_eq (by rw [hcount])
  · rw [hcount]
  · rw [hhad, hentry]
    exact h.entry

section

variable (h : ir.Sound (id :: held) loose closing gone)
include h

/-- References to objects that are gone need not be dropped. -/
lemma Sound.dropStale (ho : ir.object? id = none) : ir.Sound held loose closing gone := by
  refine h.recount rfl rfl (fun other => ?_) (fun other obj hother => ?_) h.registers h.entry
  · exact Nat.add_le_add_left count_le_count_cons _
  · have hne : id ≠ other := by
      rintro rfl
      rw [ho] at hother
      cases hother
    rw [count_cons_of_ne hne]

lemma Sound.setRoots {slots : List (Option ObjectId)} {root? : Option ObjectId} {hadEntry : Bool}
    (hroots : ∀ other, (slots.filterMap (fun slot => slot) ++ root?.toList).count other =
      ir.rootNames.count other + [id].count other) (hentry : hadEntry = false → root? = none) :
    ({ ir with dataSlots := slots, entryBlock? := root?, hadEntry } : Builder).Sound held loose closing gone := by
  have hcount (other : ObjectId) :
      ({ ir with dataSlots := slots, entryBlock? := root?, hadEntry } : Builder).nameCount
      loose closing other + held.count other = ir.nameCount loose closing other + (id :: held).count other := by
    have hcons : (id :: held).count other = [id].count other + held.count other := by
      rw [← count_append, singleton_append]
    rw [nameCount, rootNames, hroots, hcons]
    change (ir.operandNames loose).count other + (ir.memoryNames closing).count other + _ + _ = _
    unfold nameCount
    omega
  exact h.recount rfl rfl (fun other => Nat.le_of_eq (hcount other)) (fun other _ _ => hcount other)
    h.registers hentry

lemma Sound.addSlot : ({ ir with dataSlots := ir.dataSlots ++ [some id] } : Builder).Sound held loose
    closing gone := by
  refine h.setRoots (fun other => ?_) h.entry
  simp only [rootNames, filterMap_append, count_append]
  change _ + [id].count other + _ = _
  omega

lemma Sound.setEntry (hentry : ir.hadEntry = false) :
    ({ ir with entryBlock? := some id, hadEntry := true } : Builder).Sound held loose closing gone := by
  refine h.setRoots (fun other => ?_) nofun
  simp only [rootNames, h.entry hentry, count_append, Option.toList_some, Option.toList_none, count_nil,
    Nat.add_zero]

end

lemma Sound.dropEntry (h : ir.Sound held loose closing gone) (hentry : ir.entryBlock? = some id)
    (ho : ir.object? id = none) : ({ ir with entryBlock? := none } : Builder).Sound held loose closing gone := by
  have hroots (other : ObjectId) : ir.rootNames.count other =
      ({ ir with entryBlock? := none } : Builder).rootNames.count other + [id].count other := by
    simp only [rootNames, hentry, count_append, Option.toList_some, Option.toList_none, count_nil, Nat.add_zero]
  refine h.recount rfl rfl (fun other => ?_) (fun other obj hother => ?_) h.registers fun _ => rfl
  · rw [nameCount, nameCount, hroots]
    change (ir.operandNames loose).count other + (ir.memoryNames closing).count other + _ + _ ≤ _
    omega
  · have hne : id ≠ other := by
      rintro rfl
      rw [ho] at hother
      cases hother
    rw [nameCount, nameCount, hroots, count_cons_of_ne hne, count_nil]
    rfl

/-! ## Names that do not count -/

/-- The names of an object that is closing are held. -/
lemma nameCount_close (ho : ir.object? id = some obj) (hc : id ∉ closing) (loose : List InstId)
    (held : List ObjectId) (other : ObjectId) :
    ir.nameCount loose (id :: closing) other + (obj.kind.names ++ held).count other =
      ir.nameCount loose closing other + held.count other := by
  have hopen : (ir.memoryNames closing).count other =
      obj.kind.names.count other + (ir.memoryNames (id :: closing)).count other := by
    rw [← count_append]
    exact (collect_cons ho hc).count_eq other
  rw [count_append]
  unfold nameCount
  omega

/-- The operands of a loose instruction are held. -/
lemma nameCount_loosen (hi : ir.instruction? inst = some instr)
    (hl : inst ∉ loose) (closing : List ObjectId) (other : ObjectId) :
    ir.nameCount loose closing other = ir.nameCount (inst :: loose) closing other +
    instr.operands.count other := by
  have htight : (ir.operandNames loose).count other =
      instr.operands.count other + (ir.operandNames (inst :: loose)).count other := by
    rw [← count_append]
    exact (collect_cons hi hl).count_eq other
  unfold nameCount
  omega

lemma Sound.close (h : ir.Sound held loose closing gone) (ho : ir.object? id = some obj) (hc : id ∉ closing) :
    ir.Sound (obj.kind.names ++ held) loose (id :: closing) gone := by
  have hcount := nameCount_close ho hc loose held
  exact h.recount rfl rfl (fun other => Nat.le_of_eq (hcount other)) (fun other _ _ => hcount other)
    (fun other kind hk hother => h.registers other kind hk fun hm => hother (.tail _ hm)) h.entry

/-- A new object counts, once it holds its references. -/
lemma Sound.settle (h : ir.Sound (obj.kind.names ++ held) loose (id :: closing) gone)
    (ho : ir.object? id = some obj) (hc : id ∉ closing)
    (hr : ∀ name ∈ obj.kind.names, ∃ reg, ir.kind? name = some (.register reg)) :
    ir.Sound held loose closing gone := by
  have hcount (other : ObjectId) := (nameCount_close ho hc loose held other).symm
  refine h.recount rfl rfl (fun other => Nat.le_of_eq (hcount other)) (fun other _ _ => hcount other) ?_ h.entry
  intro other kind hk hother name hm
  by_cases heq : other = id
  · rw [heq, kind?_of_object? ho, Option.some.injEq] at hk
    exact hr name (hk ▸ hm)
  · exact h.registers other kind hk (not_mem_cons_of_ne_of_not_mem heq hother) name hm

/-! ## Changing an object -/

section Change

variable {id : ObjectId} {obj : Object} {f : Object → Object}

lemma nameCount_setObject (h : ir.object? id = some obj) (hn : (f obj).kind.names = obj.kind.names)
    (loose : List InstId) (closing : List ObjectId) (other : ObjectId) :
    (ir.setObject id f).nameCount loose closing other = ir.nameCount loose closing other := by
  have hmem : ((ir.setObject id f).memoryNames closing).count other = (ir.memoryNames closing).count other :=
    (collect_modify_of_eq h hn).count_eq other
  unfold nameCount
  rw [hmem]
  rfl

lemma placements_setObject (h : ir.object? id = some obj) (inst : InstId) :
    (ir.setObject id f).placements.count inst + obj.kind.placed.count inst =
      ir.placements.count inst + (f obj).kind.placed.count inst := by
  obtain ⟨rest, hold, hnew⟩ := collect_modify (f := fun obj : Object => obj.kind.placed) (g := f) h not_mem_nil
  have hbefore : ir.placements.count inst = obj.kind.placed.count inst + rest.count inst := by
    rw [← count_append]
    exact hold.count_eq inst
  have hafter : (ir.setObject id f).placements.count inst = (f obj).kind.placed.count inst + rest.count inst := by
    rw [← count_append]
    exact hnew.count_eq inst
  omega

lemma contains_setObject (h : ir.object? id = some obj) (other : ObjectId) :
    (ir.setObject id f).objects.contains other = ir.objects.contains other := by
  have hobj := object?_setObject h f other
  unfold contains
  change ((ir.setObject id f).object? other).isSome = (ir.object? other).isSome
  rw [hobj]
  split
  · rename_i heq
    rw [heq, h]
    rfl
  · rfl

/-- An object changes, and with it the account.  Its names stay, and so does
what it is, if it is a register. -/
lemma Sound.setObject {held' : List ObjectId} {loose' : List InstId} (h : ir.Sound held loose closing gone)
    (ho : ir.object? id = some obj) (hnames : (f obj).kind.names = obj.kind.names)
    (hreg : ∀ reg, obj.kind = .register reg → (f obj).kind = .register reg)
    (hplaced : ∀ inst, (f obj).kind.placed.count inst + loose'.count inst =
      obj.kind.placed.count inst + loose.count inst)
    (hself : (f obj).refs = ir.nameCount loose' closing id + held'.count id)
    (hothers : ∀ other, other ≠ id → ir.nameCount loose' closing other + held'.count other =
      ir.nameCount loose closing other + held.count other) :
    (ir.setObject id f).Sound held' loose' closing gone := by
  have hobj := object?_setObject ho f
  have hcount := nameCount_setObject ho hnames
  have hkind (name : ObjectId) (reg : Register) (hr : ir.kind? name = some (.register reg)) :
      (ir.setObject id f).kind? name = some (.register reg) := by
    rw [kind?, hobj]
    split
    · rename_i heq
      rw [heq, kind?_of_object? ho, Option.some.injEq] at hr
      rw [Option.map_some, hreg reg hr]
    · exact hr
  refine ⟨h.objects.modify f, h.instructions, ?_, fun other stored hsto => ?_, fun inst => ?_,
    fun other hpos => ?_,
    fun other hm => spent_modify f (h.spent other hm), fun other kind hk hc name hm => ?_, h.entry⟩
  · exact fun hg => Nat.lt_of_le_of_lt (Nat.le_of_eq (allocated_modify f)) (h.room hg)
  · rw [hobj] at hsto
    rw [hcount]
    split at hsto
    · rename_i heq
      cases hsto
      rw [heq]
      exact hself
    · rename_i hne
      rw [hothers other hne]
      exact h.refs other stored hsto
  · have hold := h.placed inst
    have hmoved := placements_setObject (f := f) ho inst
    have hinst := hplaced inst
    change _ = if ir.instructions.contains inst then 1 else 0
    omega
  · rw [contains_setObject ho]
    rw [hcount] at hpos
    by_cases heq : other = id
    · exact .inl (contains_iff.mpr ⟨obj, heq ▸ ho⟩)
    · rw [hothers other heq] at hpos
      exact h.solid other hpos
  · have hold : ∃ kind', ir.kind? other = some kind' ∧ kind'.names = kind.names := by
      rw [kind?, hobj] at hk
      split at hk
      · rename_i heq
        cases hk
        exact ⟨obj.kind, heq ▸ kind?_of_object? ho, hnames.symm⟩
      · exact ⟨kind, hk, rfl⟩
    obtain ⟨kind', hkind', heq⟩ := hold
    obtain ⟨reg, hr⟩ := h.registers other kind' hkind' hc name (heq ▸ hm)
    exact ⟨reg, hkind name reg hr⟩

end Change

lemma Sound.retain (h : ir.Sound held loose closing gone) (ho : ir.object? id = some obj) :
    (ir.setObject id fun obj => { obj with refs := obj.refs + 1 }).Sound (id :: held) loose closing gone := by
  refine h.setObject ho rfl (fun _ hr => hr) (fun _ => rfl) ?_ fun other hne => ?_
  · dsimp only
    rw [h.refs id obj ho, count_cons_self]
    omega
  · rw [count_cons_of_ne hne.symm]

lemma Sound.drop (h : ir.Sound (id :: held) loose closing gone) (ho : ir.object? id = some obj) :
    (ir.setObject id fun obj => { obj with refs := obj.refs - 1 }).Sound held loose closing gone := by
  refine h.setObject ho rfl (fun _ hr => hr) (fun _ => rfl) ?_ fun other hne => ?_
  · dsimp only
    rw [h.refs id obj ho, count_cons_self]
    omega
  · rw [count_cons_of_ne hne.symm]

/-! ## New objects and instructions -/

lemma Sound.allocObject {kind : ObjectKind} {objects : Arena Object}
    (h : ir.Sound held loose closing gone) (halloc : ir.objects.alloc ⟨kind, 0⟩ = some (id, objects))
    (hroom : gone ≠ [] → objects.allocated < UInt32.size) (hplaced : kind.placed = []) :
    ({ ir with objects } : Builder).Sound held loose (id :: closing) gone := by
  have hfresh : ir.object? id = none := get?_alloc_fresh h.objects halloc
  have hself : objects.get? id = some ⟨kind, 0⟩ := get?_alloc_self h.objects halloc
  have hother (other : ObjectId) (hne : other ≠ id) : objects.get? other = ir.object? other :=
    get?_alloc_of_ne h.objects halloc hne
  have hcount (other : ObjectId) : ({ ir with objects } : Builder).nameCount loose (id :: closing) other =
      ir.nameCount loose closing other := by
    have hmem : (({ ir with objects } : Builder).memoryNames (id :: closing)).count other =
        (ir.memoryNames closing).count other := (collect_alloc h.objects halloc).count_eq other
    unfold nameCount
    rw [hmem]
    rfl
  have hzero : ir.nameCount loose closing id + held.count id = 0 := by
    refine Nat.eq_zero_of_not_pos fun hpos => ?_
    rcases h.solid id hpos with hlive | hgone
    · obtain ⟨obj, hobj⟩ := contains_iff.mp hlive
      rw [hfresh] at hobj
      cases hobj
    · exact not_spent_alloc h.objects halloc (h.spent id hgone)
  have hne {other : ObjectId} {obj : Object} (ho : ir.object? other = some obj) : other ≠ id := by
    rintro rfl
    rw [hfresh] at ho
    cases ho
  refine ⟨h.objects.alloc halloc, h.instructions, hroom, fun other obj hobj => ?_, fun inst => ?_,
    fun other hpos => ?_,
    fun other hm => spent_alloc h.objects halloc (h.spent other hm), fun other kind' hk hc name hm => ?_, h.entry⟩
  · rw [hcount]
    by_cases heq : other = id
    · obtain rfl : (⟨kind, 0⟩ : Object) = obj := Option.some.inj (hself.symm.trans (heq ▸ hobj))
      rw [heq]
      exact hzero.symm
    · exact h.refs other obj ((hother other heq).symm.trans hobj)
  · have hskipped := collect_cons (f := fun obj : Object => obj.kind.placed) hself not_mem_nil
    rw [hplaced, nil_append] at hskipped
    have hplaces : ({ ir with objects } : Builder).placements.count inst = ir.placements.count inst :=
      (hskipped.trans (collect_alloc h.objects halloc)).count_eq inst
    rw [hplaces]
    exact h.placed inst
  · rw [hcount] at hpos
    refine (h.solid other hpos).imp_left fun hlive => ?_
    obtain ⟨obj, hobj⟩ := contains_iff.mp hlive
    exact contains_iff.mpr ⟨obj, (hother other (hne hobj)).trans hobj⟩
  · have hother' : other ≠ id := fun heq => hc (heq ▸ mem_cons_self ..)
    have hk' : ir.kind? other = some kind' := by
      rw [kind?, ← hother other hother']
      exact hk
    obtain ⟨reg, hr⟩ := h.registers other kind' hk' (fun hm => hc (.tail _ hm)) name hm
    obtain ⟨refs, hname⟩ := object?_eq_of_kind? hr
    refine ⟨reg, ?_⟩
    change (objects.get? name).map _ = _
    rw [hother name (hne hname)]
    exact hr

lemma Sound.setInstructions {instructions : Arena Instruction} {loose' : List InstId} {held' : List ObjectId}
    (h : ir.Sound held loose closing gone) (hwell : instructions.WellFormed)
    (hopds : (({ ir with instructions } : Builder).operandNames loose' ++ held').Perm (ir.operandNames loose ++ held))
    (hplaced : ∀ other, ir.placements.count other + loose'.count other = if instructions.contains other
      then 1 else 0) :
    ({ ir with instructions } : Builder).Sound held' loose' closing gone := by
  have hcount (other : ObjectId) : ({ ir with instructions } : Builder).nameCount loose' closing other +
      held'.count other = ir.nameCount loose closing other + held.count other := by
    have hopd := hopds.count_eq other
    rw [count_append, count_append] at hopd
    change _ + (ir.memoryNames closing).count other + ir.rootNames.count other + _ = _
    unfold nameCount
    omega
  refine ⟨h.objects, hwell, h.room, fun other obj hobj => ?_, hplaced, fun other hpos => ?_, h.spent,
    h.registers, h.entry⟩
  · rw [hcount]
    exact h.refs other obj hobj
  · rw [hcount] at hpos
    exact h.solid other hpos

lemma Sound.allocInst {instructions : Arena Instruction} (h : ir.Sound held loose closing gone)
    (halloc : ir.instructions.alloc instr = some (inst, instructions)) :
    ({ ir with instructions } : Builder).Sound held (inst :: loose) closing gone := by
  refine h.setInstructions (h.instructions.alloc halloc) ((collect_alloc h.instructions halloc).append_right held)
    fun other => ?_
  have hold := h.placed other
  by_cases heq : other = inst
  · rw [heq] at hold ⊢
    rw [Arena.contains, get?_alloc_fresh h.instructions halloc] at hold
    rw [if_pos (Arena.contains_iff.mpr ⟨_, Arena.get?_alloc_self h.instructions halloc⟩), count_cons_self,
      ← Nat.add_assoc, hold]
    rfl
  · have hcont : instructions.contains other = ir.instructions.contains other := by
      rw [contains, get?_alloc_of_ne h.instructions halloc heq, contains]
    rw [count_cons_of_ne (Ne.symm heq), hold, hcont]

/-! ## Freed objects and instructions -/

lemma Sound.not_mem_loose (h : ir.Sound held (inst :: loose) closing gone) : inst ∉ loose := by
  intro hm
  have hplaced := h.placed inst
  have hpos := count_pos_iff.mpr hm
  rw [count_cons_self] at hplaced
  split at hplaced <;> omega

lemma Sound.freeInst (h : ir.Sound held (inst :: loose) closing gone) (hi : ir.instruction? inst = some instr) :
    ({ ir with instructions := ir.instructions.erase inst } : Builder).Sound held loose closing gone := by
  refine h.setInstructions (h.instructions.erase hi) ((collect_erase hi).symm.append_right held) fun other => ?_
  have hold := h.placed other
  by_cases heq : other = inst
  · rw [heq] at hold ⊢
    rw [if_pos (Arena.contains_iff.mpr ⟨instr, hi⟩), count_cons_self, ← Nat.add_assoc] at hold
    rw [Arena.contains, get?_erase_self hi]
    exact Nat.succ.inj hold
  · have hcont : (ir.instructions.erase inst).contains other = ir.instructions.contains other := by
      rw [contains, get?_erase_of_ne hi heq, contains]
    rw [count_cons_of_ne (Ne.symm heq)] at hold
    rw [hold, hcont]

/-- The operands that an instruction loses are held. -/
lemma Sound.strip (h : ir.Sound held [] closing gone) (hi : ir.instruction? inst = some instr) :
    ({ ir with instructions := ir.instructions.modify inst ({ · with operands := [] }) } : Builder).Sound
      (instr.operands ++ held) [] closing gone := by
  rw [instruction?] at hi
  obtain ⟨rest, hold, hnew⟩ := collect_modify (f := fun instr : Instruction => instr.operands)
    (g := ({ · with operands := [] })) hi not_mem_nil
  refine h.setInstructions (h.instructions.modify _) ?_ fun other => ?_
  · refine (hnew.append_right _).trans ?_
    rw [nil_append, ← append_assoc]
    exact (perm_append_comm.trans hold.symm).append_right held
  · rw [h.placed, contains, contains]
    by_cases heq : other = inst
    · rw [heq, hi, get?_modify_self _ hi]
      rfl
    · rw [get?_modify_of_ne _ heq]

/-- Operands of an instruction, if it is live. -/
def operandsOf (ir : Builder) (inst : InstId) : List ObjectId :=
  ((ir.instruction? inst).map (·.operands)).getD []

lemma operandsOf_eq (h : ir.instruction? inst = some instr) : ir.operandsOf inst = instr.operands := by
  rw [operandsOf, h]
  rfl

/-- The operands of instructions that come loose are held. -/
lemma nameCount_loosenAll {insts : List InstId} (hlive : ∀ inst ∈ insts, ir.instructions.contains inst = true)
    (hnodup : (insts ++ loose).Nodup) (closing : List ObjectId) (other : ObjectId) :
    ir.nameCount loose closing other =
      ir.nameCount (insts ++ loose) closing other + (insts.flatMap ir.operandsOf).count other := by
  induction insts with
  | nil => rfl
  | cons inst rest ih =>
    rw [cons_append, nodup_cons] at hnodup
    obtain ⟨instr, hi⟩ := Arena.contains_iff.mp (hlive inst (.head _))
    have hrest := ih (forall_mem_cons.mp hlive).2 hnodup.2
    have hinst := nameCount_loosen hi hnodup.1 closing other
    rw [cons_append, flatMap_cons, count_append, operandsOf_eq hi]
    omega

/-- A slot holds a live instruction, which stands in no other slot. -/
lemma Sound.nodup_placed (h : ir.Sound held loose closing gone)
    (ho : ir.object? id = some obj) : (∀ inst ∈ obj.kind.placed, ir.instructions.contains inst = true) ∧
      (obj.kind.placed ++ loose).Nodup := by
  have hcount (inst : InstId) : obj.kind.placed.count inst ≤ ir.placements.count inst := by
    have hperm := (collect_cons (f := fun obj : Object => obj.kind.placed) ho not_mem_nil).count_eq inst
    rw [count_append] at hperm
    rw [placements, hperm]
    exact Nat.le_add_right _ _
  constructor
  · intro inst hm
    have hplaced := h.placed inst
    have hpos := count_pos_iff.mpr hm
    have hle := hcount inst
    by_contra hdead
    rw [if_neg hdead] at hplaced
    omega
  · rw [nodup_iff_count_le_one]
    intro inst
    have hplaced := h.placed inst
    have hle := hcount inst
    rw [count_append]
    split at hplaced <;> omega

/-- An object is freed whose names do not count.  The instructions of a block
come loose. -/
lemma Sound.free {gone' : List ObjectId} (h : ir.Sound held loose (id :: closing) gone)
    (ho : ir.object? id = some obj) (hroom : gone' ≠ [] → ir.objects.allocated < UInt32.size)
    (hsub : gone ⊆ gone') (hsup : ∀ other ∈ gone', other = id ∨ other ∈ gone)
    (hself : obj.refs = 0 ∨ id ∈ gone') (hreg : obj.refs = 0 ∨ ∀ reg, obj.kind ≠ .register reg) :
    ({ ir with objects := ir.objects.erase id } : Builder).Sound (obj.kind.placed.flatMap ir.operandsOf ++ held)
      (obj.kind.placed ++ loose) closing gone' := by
  obtain ⟨hlive, hloose⟩ := h.nodup_placed ho
  have hfreed : (ir.objects.erase id).get? id = none := get?_erase_self ho
  have hother (other : ObjectId) (hne : other ≠ id) : (ir.objects.erase id).get? other = ir.object? other :=
    get?_erase_of_ne ho hne
  have hcount (other : ObjectId) : ({ ir with objects := ir.objects.erase id } : Builder).nameCount
      (obj.kind.placed ++ loose) closing other + (obj.kind.placed.flatMap ir.operandsOf ++ held).count other =
        ir.nameCount loose (id :: closing) other + held.count other := by
    have hmem : (ir.memoryNames (id :: closing)).count other =
        (({ ir with objects := ir.objects.erase id } : Builder).memoryNames closing).count other :=
      (collect_erase ho).count_eq other
    have hmoved := nameCount_loosenAll hlive hloose (id :: closing) other
    have hsame : ({ ir with objects := ir.objects.erase id } : Builder).nameCount
      (obj.kind.placed ++ loose) closing
        other = ir.nameCount (obj.kind.placed ++ loose) (id :: closing) other := by
      unfold nameCount
      rw [hmem]
      rfl
    rw [hsame, hmoved, count_append]
    omega
  have hne {other : ObjectId} {obj : Object} (hobj : (ir.objects.erase id).get? other = some obj) :
      other ≠ id := by
    rintro rfl
    rw [hfreed] at hobj
    cases hobj
  refine ⟨h.objects.erase ho, h.instructions, ?_, fun other stored hsto => ?_, fun inst => ?_,
    fun other hpos => ?_, fun other hm => ?_, fun other kind hk hc name hm => ?_, h.entry⟩
  · exact fun hg => Nat.lt_of_le_of_lt (Nat.le_of_eq (allocated_erase ho)) (hroom hg)
  · rw [hcount]
    exact h.refs other stored ((hother other (hne hsto)).symm.trans hsto)
  · have hopen := (collect_cons (f := fun obj : Object => obj.kind.placed) ho not_mem_nil).trans
      (List.Perm.append_left _ (collect_erase ho))
    have hplaces : ir.placements.count inst = obj.kind.placed.count inst +
        ({ ir with objects := ir.objects.erase id } : Builder).placements.count inst := by
      rw [← count_append]
      exact hopen.count_eq inst
    have hold := h.placed inst
    change _ = if ir.instructions.contains inst then 1 else 0
    rw [count_append]
    omega
  · rw [hcount] at hpos
    by_cases heq : other = id
    · rw [heq] at hpos ⊢
      refine .inr (hself.resolve_left fun hzero => ?_)
      rw [h.refs id obj ho] at hzero
      omega
    · refine (h.solid other hpos).imp (fun hlive => ?_) fun hm => hsub hm
      obtain ⟨stored, hsto⟩ := contains_iff.mp hlive
      exact contains_iff.mpr ⟨stored, (hother other heq).trans hsto⟩
  · exact spent_erase (growsOlder h.objects (hroom (ne_nil_of_mem hm)) ho) ho
      ((hsup other hm).imp_right (h.spent other))
  · obtain ⟨stored, hsto, -⟩ := Option.map_eq_some_iff.mp hk
    have hother' := hne hsto
    have hk' : ir.kind? other = some kind := by
      rw [kind?, ← hother other hother']
      exact hk
    obtain ⟨reg, hr⟩ := h.registers other kind hk' (not_mem_cons_of_ne_of_not_mem hother' hc) name hm
    refine ⟨reg, ?_⟩
    have hname : name ≠ id := by
      rintro rfl
      rw [kind?_of_object? ho, Option.some.injEq] at hr
      have hzero := hreg.resolve_right fun hnot => hnot reg hr
      obtain ⟨refs, hobj⟩ := object?_eq_of_kind? hk'
      have hpos : 0 < (ir.memoryNames (name :: closing)).count name := by
        refine count_pos_iff.mpr (mem_flatMap.mpr ⟨(other, ⟨kind, refs⟩), mem_entries.mpr hobj, ?_⟩)
        rw [if_neg (not_mem_cons_of_ne_of_not_mem hother' hc)]
        exact hm
      rw [h.refs name obj ho, nameCount] at hzero
      omega
    change ((ir.objects.erase id).get? name).map _ = _
    rw [hother name hname]
    exact hr

/-! ## Links -/

/-- Links do not count. -/
lemma sound_unlinked : ir.unlinked.Sound held loose closing gone ↔ ir.Sound held loose closing gone := by
  have hobj (id : ObjectId) : ir.unlinked.object? id = (ir.object? id).map Object.unlinked :=
    get?_map Object.unlinked id
  have hkind (id : ObjectId) : ir.unlinked.kind? id = (ir.kind? id).map ObjectKind.unlinked := by
    rw [kind?, hobj, kind?, Option.map_map, Option.map_map]
    rfl
  have hcont (id : ObjectId) : ir.unlinked.objects.contains id = ir.objects.contains id := by
    rw [contains, contains]
    exact (congrArg Option.isSome (hobj id)).trans Option.isSome_map
  have hmem (closing : List ObjectId) : ir.unlinked.memoryNames closing = ir.memoryNames closing := by
    refine (collect_map Object.unlinked).trans ?_
    exact congrArg (ir.objects.collect · closing) (funext fun obj => obj.kind.names_unlinked)
  have hplaces : ir.unlinked.placements = ir.placements := by
    refine (collect_map Object.unlinked).trans ?_
    exact congrArg (ir.objects.collect · []) (funext fun obj => obj.kind.placed_unlinked)
  have hcount (id : ObjectId) : ir.unlinked.nameCount loose closing id = ir.nameCount loose closing id := by
    rw [nameCount, nameCount, hmem]
    rfl
  have hreg (id : ObjectId) (reg : Register) :
      ir.unlinked.kind? id = some (.register reg) ↔ ir.kind? id = some (.register reg) := by
    rw [hkind]
    cases ir.kind? id with
    | none => rfl
    | some kind => cases kind <;> simp [ObjectKind.unlinked]
  constructor
  · intro h
    refine ⟨(wellFormed_map _).mp h.objects, h.instructions, h.room, fun id obj ho => ?_, fun id => ?_,
      fun id hpos => ?_, fun id hm => (spent_map _).mp (h.spent id hm), fun id kind hk hc name hm => ?_, h.entry⟩
    · rw [← hcount]
      exact h.refs id obj.unlinked (by rw [hobj, ho]; rfl)
    · rw [← hplaces]
      exact h.placed id
    · rw [← hcount] at hpos
      rw [← hcont]
      exact h.solid id hpos
    · obtain ⟨reg, hr⟩ := h.registers id kind.unlinked (by rw [hkind, hk]; rfl) hc name
        (by rwa [ObjectKind.names_unlinked])
      exact ⟨reg, (hreg name reg).mp hr⟩
  · intro h
    refine ⟨(wellFormed_map _).mpr h.objects, h.instructions, h.room, fun id obj ho => ?_, fun id => ?_,
      fun id hpos => ?_, fun id hm => (spent_map _).mpr (h.spent id hm), fun id kind hk hc name hm => ?_, h.entry⟩
    · rw [hobj] at ho
      obtain ⟨stored, hsto, rfl⟩ := Option.map_eq_some_iff.mp ho
      rw [hcount]
      exact h.refs id stored hsto
    · rw [hplaces]
      exact h.placed id
    · rw [hcount] at hpos
      rw [hcont]
      exact h.solid id hpos
    · rw [hkind] at hk
      obtain ⟨stored, hsto, rfl⟩ := Option.map_eq_some_iff.mp hk
      obtain ⟨reg, hr⟩ := h.registers id stored hsto hc name (by rwa [ObjectKind.names_unlinked] at hm)
      exact ⟨reg, (hreg name reg).mpr hr⟩

lemma Sound.relink (h : ir.Sound held loose closing gone) (heq : later.unlinked = ir.unlinked) :
    later.Sound held loose closing gone :=
  sound_unlinked.mp (heq ▸ sound_unlinked.mpr h)

end Builder

end Shading
