import Mathlib.Order.Bounds.Defs
import Shading.Ir.Prune
import Shading.Proofs.Ir.Listing

/-!
# Instructions that support each other

A pure instruction that writes a register is of use if something else refers to
the register.  A set of instructions supports itself if all its pure
instructions are of use within it (`Builder.SelfSupporting`).  Taking out dead
instructions does not change which sets do (`Builder.Weeds.selfSupporting_iff`),
and where none is dead, all instructions together do
(`Builder.Sound.selfSupporting`).
-/

namespace Shading

open List Option

variable {ir later : Builder} {held lost : List ObjectId} {inst : InstId} {id tgt : ObjectId} {gone : List InstId}
  {kind : ObjectKind} {set : Set InstId}

namespace Builder

/-- An object that is left is what it was, or a block still. -/
def KeepsKinds (ir later : Builder) : Prop :=
  ∀ id kind, later.kind? id = some kind → ir.kind? id = some kind ∨
    (∃ block, kind = .block block) ∧ ∃ block, ir.kind? id = some (.block block)

/-- The instruction has the object as an operand. -/
def Uses (ir : Builder) (inst : InstId) (id : ObjectId) : Prop :=
  ∃ instr, ir.instruction? inst = some instr ∧ id ∈ instr.operands

/-- The builder itself or its caller refers to the object. -/
def Rooted (ir : Builder) (held : List ObjectId) (id : ObjectId) : Prop := id ∈ ir.rootNames ∨ id ∈ held

/-- The register `target` that an instruction writes is referred to from outside
the instruction, as far as the instructions of a set go. -/
inductive Supports (ir : Builder) (held : List ObjectId) (set : Set InstId) (inst : InstId)
    (target : ObjectId) : Prop
  | operand {other : InstId} (hm : other ∈ set) (hne : other ≠ inst) (h : ir.Uses other target)
  /-- A memory operand that no instruction uses is the caller's. -/
  | memory {id : ObjectId} {operand : MemoryOperand} (hk : ir.kind? id = some (.memory operand))
    (hname : target ∈ (ObjectKind.memory operand).names)
    (h : (∃ other ∈ set, ir.Uses other id) ∨ ir.Rooted held id ∨ ∀ other, ¬ir.Uses other id)
  | root (h : ir.Rooted held target)

/-- The pure instructions of the set write registers that are referred to from
outside themselves. -/
structure SelfSupporting (ir : Builder) (held : List ObjectId) (set : Set InstId) : Prop where
  live : ∀ inst ∈ set, ir.instructions.contains inst = true
  supports : ∀ inst ∈ set, ∀ opcode target others register, ir.instruction? inst = some ⟨opcode,
    target :: others⟩ →
    opcode.code.isPure = true → ir.kind? target = some (.register register) → ir.Supports held set inst target

/-! ## Dead instructions -/

/-- What being dead means. -/
lemma isDead_iff : ir.isDead inst = true ↔ ∃ opcode tgt others reg,
    ir.instruction? inst = some ⟨opcode, tgt :: others⟩ ∧ opcode.code.isPure = true ∧
      ir.object? tgt = some ⟨.register reg, (tgt :: others).count tgt⟩ := by
  unfold isDead
  constructor
  · intro h
    split at h
    · rename_i opcode tgt others hi
      split at h
      · rename_i reg refs ho
        simp only [Bool.and_eq_true, decide_eq_true_eq] at h
        exact ⟨opcode, tgt, others, reg, hi, h.1, h.2 ▸ ho⟩
      · cases h
    · cases h
  · rintro ⟨opcode, tgt, others, reg, hi, hpure, ho⟩
    rw [hi]
    dsimp only
    rw [ho]
    simp [hpure]

/-- What refers to an object, but for loose instructions. -/
lemma nameCount_pos_iff {loose : List InstId} : 0 < ir.nameCount loose [] tgt + held.count tgt ↔
    (∃ other, other ∉ loose ∧ ir.Uses other tgt) ∨ (∃ id kind, ir.kind? id = some kind ∧
      tgt ∈ kind.names) ∨ ir.Rooted held tgt := by
  have hopds : tgt ∈ ir.operandNames loose ↔ ∃ other, other ∉ loose ∧ ir.Uses other tgt := by
    constructor
    · intro hm
      obtain ⟨⟨other, instr⟩, he, hm⟩ := mem_flatMap.mp hm
      split at hm
      · cases hm
      · rename_i hnot
        exact ⟨other, by simpa using hnot, instr, Arena.mem_entries.mp he, hm⟩
    · rintro ⟨other, hnot, instr, hi, hm⟩
      refine mem_flatMap.mpr ⟨(other, instr), Arena.mem_entries.mpr hi, ?_⟩
      rw [if_neg (by simpa using hnot)]
      exact hm
  have hmem : tgt ∈ ir.memoryNames [] ↔ ∃ id kind, ir.kind? id = some kind ∧ tgt ∈ kind.names := by
    rw [memoryNames, Arena.collect_nil]
    constructor
    · intro hm
      obtain ⟨⟨id, obj⟩, he, hm⟩ := mem_flatMap.mp hm
      exact ⟨id, obj.kind, kind?_of_object? (Arena.mem_entries.mp he), hm⟩
    · rintro ⟨id, kind, hk, hm⟩
      obtain ⟨refs, ho⟩ := object?_eq_of_kind? hk
      exact mem_flatMap.mpr ⟨(id, _), Arena.mem_entries.mpr ho, hm⟩
  rw [← hopds, ← hmem, Rooted, ← count_pos_iff, ← count_pos_iff, ← count_pos_iff, ← count_pos_iff]
  unfold nameCount
  omega

section

variable (h : ir.Sound held [] [] lost)
include h

/-- Only the instruction refers to the register that a dead one writes. -/
lemma Sound.unnamed {instr : Instruction} (hi : ir.instruction? inst = some instr)
    (ho : ir.object? tgt = some ⟨kind, instr.operands.count tgt⟩) :
    (∀ other, other ≠ inst → ¬ir.Uses other tgt) ∧ (∀ id kind, ir.kind? id = some kind →
      tgt ∉ kind.names) ∧ ¬ir.Rooted held tgt := by
  have hrefs := h.refs tgt _ ho
  have hcount := nameCount_loosen hi not_mem_nil [] tgt
  dsimp only at hrefs
  have hzero : ¬0 < ir.nameCount [inst] [] tgt + held.count tgt := by omega
  rw [nameCount_pos_iff, not_or, not_or] at hzero
  obtain ⟨hrest, hnames, hroot⟩ := hzero
  exact ⟨fun other hne huses => hrest ⟨other, by simpa using hne, huses⟩, fun id kind hk hm =>
    hnames ⟨id, kind, hk, hm⟩, hroot⟩

/-- A dead instruction is not in a set that supports itself. -/
lemma Sound.not_mem_of_isDead (hdead : ir.isDead inst = true) (hset : ir.SelfSupporting held set) :
    inst ∉ set := by
  intro hm
  obtain ⟨opcode, tgt, others, reg, hi, hpure, ho⟩ := isDead_iff.mp hdead
  obtain ⟨hrest, hnames, hroot⟩ := h.unnamed hi ho
  cases hset.supports inst hm opcode tgt others reg hi hpure (kind?_of_object? ho) with
  | operand _ hne huses => exact hrest _ hne huses
  | memory hk hname _ => exact hnames _ _ hk hname
  | root hrooted => exact hroot hrooted

/-- If no instruction is dead, all of them together support themselves. -/
lemma Sound.selfSupporting (hquiet : ∀ inst, ir.isDead inst = false) :
    ir.SelfSupporting held {inst | ir.instructions.contains inst = true} := by
  refine ⟨fun inst hm => hm, fun inst _ opcode tgt others reg hi hpure hk => ?_⟩
  obtain ⟨refs, ho⟩ := object?_eq_of_kind? hk
  have hne : refs ≠ (tgt :: others).count tgt := by
    rintro rfl
    exact Bool.false_ne_true ((hquiet inst).symm.trans (isDead_iff.mpr ⟨opcode, tgt, others, reg, hi, hpure, ho⟩))
  have hrefs := h.refs tgt _ ho
  have hcount := nameCount_loosen hi not_mem_nil [] tgt
  dsimp only at hrefs hcount
  have hpos : 0 < ir.nameCount [inst] [] tgt + held.count tgt := by omega
  have hlive {other : InstId} {id : ObjectId} (huses : ir.Uses other id) :
      ir.instructions.contains other = true := by
    obtain ⟨instr, hinstr, -⟩ := huses
    exact Arena.contains_iff.mpr ⟨instr, hinstr⟩
  rcases nameCount_pos_iff.mp hpos with ⟨other, hne, huses⟩ | ⟨id, kind, hk, hm⟩ | hroot
  · exact .operand (hlive huses) (by simpa using hne) huses
  · cases kind with
    | memory operand =>
      refine .memory hk hm ?_
      by_cases hused : ∃ other, ir.Uses other id
      · obtain ⟨other, huses⟩ := hused
        exact .inl ⟨other, hlive huses, huses⟩
      · exact .inr (.inr (not_exists.mp hused))
    | _ => cases hm
  · exact .root hroot

/-- What was live and is referred to is live still. -/
lemma Sound.kind?_of_named (h' : later.Sound held [] [] lost) (hkinds : ir.KeepsKinds later)
    (hn : (∃ inst, later.Uses inst id) ∨ later.Rooted held id) (hk : ir.kind? id = some kind)
    (hblk : kind.block? = none) : later.kind? id = some kind := by
  have hpos : 0 < later.nameCount [] [] id + held.count id :=
    nameCount_pos_iff.mpr (hn.imp (fun ⟨inst, huses⟩ => ⟨inst, not_mem_nil, huses⟩) .inr)
  obtain ⟨refs, ho⟩ := object?_eq_of_kind? hk
  rcases h'.solid id hpos with hlive | hlost
  · obtain ⟨obj, hobj⟩ := contains_iff.mp hlive
    rw [kind?_of_object? hobj]
    rcases hkinds id _ (kind?_of_object? hobj) with hsame | ⟨-, blk, hold⟩
    · exact hsame.symm.trans hk
    · rw [hk] at hold
      cases hold
      cases hblk
  · have hnone : ir.object? id = none := Arena.get?_of_spent (h.spent id hlost)
    rw [ho] at hnone
    cases hnone

end

/-- Dead instructions are taken out, and with them what only they used. -/
structure Weeds (ir : Builder) (held lost : List ObjectId) (gone : List InstId) (later : Builder) : Prop where
  before : ir.Sound held [] [] lost
  after : later.Sound held [] [] lost
  kinds : ir.KeepsKinds later
  roots : later.rootNames = ir.rootNames
  dead : ∀ inst ∈ gone, ir.isDead inst = true
  instruction : ∀ inst, later.instruction? inst = if inst ∈ gone then none else ir.instruction? inst
  memory : ∀ id operand, ir.kind? id = some (.memory operand) →
    later.kind? id = some (.memory operand) ∨ ∃ inst ∈ gone, ir.Uses inst id
  used : ∀ id, (∃ inst ∈ gone, ir.Uses inst id) → ∀ operand, later.kind? id = some (.memory operand) →
    later.refs? id ≠ some 0

namespace Weeds

variable (h : ir.Weeds held lost gone later)
include h

lemma uses_iff : later.Uses inst id ↔ inst ∉ gone ∧ ir.Uses inst id := by
  unfold Uses
  rw [h.instruction]
  split
  · rename_i hm
    simp [hm]
  · rename_i hm
    simp [hm]

lemma rooted_iff : later.Rooted held id ↔ ir.Rooted held id := by rw [Rooted, h.roots, Rooted]

/-- A memory operand that is left and not used any more is the caller's. -/
lemma unused {operand : MemoryOperand} (hk : later.kind? id = some (.memory operand))
    (hnone : ∀ inst, ¬later.Uses inst id) : ir.Rooted held id ∨ ∀ inst, ¬ir.Uses inst id := by
  by_cases hused : ∃ inst ∈ gone, ir.Uses inst id
  · left
    obtain ⟨refs, ho⟩ := object?_eq_of_kind? hk
    have hne := h.used id hused operand hk
    have hrefs := h.after.refs id _ ho
    rw [refs?, ho, map_some, Ne, some.injEq] at hne
    dsimp only at hrefs hne
    have hpos : 0 < later.nameCount [] [] id + held.count id := by omega
    rcases nameCount_pos_iff.mp hpos with ⟨inst, -, huses⟩ | ⟨other, kind, hother, hm⟩ | hroot
    · exact absurd huses (hnone inst)
    · obtain ⟨reg, hr⟩ := h.after.registers other kind hother not_mem_nil id hm
      cases hr.symm.trans hk
    · exact h.rooted_iff.mp hroot
  · right
    intro inst huses
    by_cases hm : inst ∈ gone
    · exact hused ⟨inst, hm, huses⟩
    · exact hnone inst (h.uses_iff.mpr ⟨hm, huses⟩)

lemma supports_iff (hset : ∀ inst ∈ set, inst ∉ gone) : later.Supports held set inst tgt ↔
    ir.Supports held set inst tgt := by
  constructor
  · intro hsupports
    cases hsupports with
    | operand hm hne huses => exact .operand hm hne (h.uses_iff.mp huses).2
    | @memory id operand hk hname hof =>
      have hold : ir.kind? id = some (.memory operand) := (h.kinds id _ hk).resolve_right (by simp)
      refine .memory hold hname ?_
      rcases hof with ⟨other, hm, huses⟩ | hroot | hnone
      · exact .inl ⟨other, hm, (h.uses_iff.mp huses).2⟩
      · exact .inr (.inl (h.rooted_iff.mp hroot))
      · exact .inr (h.unused hk hnone)
    | root hroot => exact .root (h.rooted_iff.mp hroot)
  · intro hsupports
    have hkeeps {other : InstId} {id : ObjectId} (hm : other ∈ set) (huses : ir.Uses other id) :
        later.Uses other id :=
      h.uses_iff.mpr ⟨hset other hm, huses⟩
    cases hsupports with
    | operand hm hne huses => exact .operand hm hne (hkeeps hm huses)
    | @memory id operand hk hname hof =>
      rcases hof with ⟨other, hm, huses⟩ | hroot | hnone
      · exact .memory (h.before.kind?_of_named h.after h.kinds (.inl ⟨other, hkeeps hm huses⟩) hk rfl) hname
          (.inl ⟨other, hm, hkeeps hm huses⟩)
      · have hroot' := h.rooted_iff.mpr hroot
        exact .memory (h.before.kind?_of_named h.after h.kinds (.inr hroot') hk rfl) hname (.inr (.inl hroot'))
      · have hleft := (h.memory id operand hk).resolve_right fun ⟨inst, _, huses⟩ => hnone inst huses
        exact .memory hleft hname (.inr (.inr fun other huses => hnone other (h.uses_iff.mp huses).2))
    | root hroot => exact .root (h.rooted_iff.mpr hroot)

lemma selfSupporting_iff_of_kept (hset : ∀ inst ∈ set, inst ∉ gone) :
    later.SelfSupporting held set ↔ ir.SelfSupporting held set := by
  have hinst (inst : InstId) (hm : inst ∈ set) : later.instruction? inst = ir.instruction? inst :=
    (h.instruction inst).trans (if_neg (hset inst hm))
  have hlive (inst : InstId) (hm : inst ∈ set) :
      later.instructions.contains inst = ir.instructions.contains inst :=
    congrArg isSome (hinst inst hm)
  constructor
  · refine fun hs => ⟨fun inst hm => hlive inst hm ▸ hs.live inst hm,
      fun inst hm opcode tgt others reg hi hpure hk => ?_⟩
    rw [← hinst inst hm] at hi
    have hk' := h.before.kind?_of_named h.after h.kinds (.inl ⟨inst, _, hi, .head _⟩) hk rfl
    exact (h.supports_iff hset).mp (hs.supports inst hm opcode tgt others reg hi hpure hk')
  · refine fun hs => ⟨fun inst hm => (hlive inst hm).trans (hs.live inst hm),
      fun inst hm opcode tgt others reg hi hpure hk => ?_⟩
    have hk' : ir.kind? tgt = some (.register reg) := (h.kinds tgt _ hk).resolve_right (by simp)
    exact (h.supports_iff hset).mpr (hs.supports inst hm opcode tgt others reg (hinst inst hm ▸ hi) hpure hk')

/-- The same sets support themselves before and after. -/
lemma selfSupporting_iff : later.SelfSupporting held set ↔ ir.SelfSupporting held set := by
  constructor
  · refine fun hs => (h.selfSupporting_iff_of_kept fun inst hm hgone => ?_).mp hs
    obtain ⟨instr, hi⟩ := Arena.contains_iff.mp (hs.live inst hm)
    cases ((h.instruction inst).symm.trans hi).symm.trans (if_pos hgone)
  · exact fun hs => (h.selfSupporting_iff_of_kept fun inst hm hgone =>
      h.before.not_mem_of_isDead (h.dead inst hgone) hs hm).mpr hs

end Weeds

end Builder

end Shading
