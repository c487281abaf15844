import Shading.Proofs.Ir.Shed

/-!
# Operations and the list of blocks

What the operations that are no removal do to the list of blocks and to the
objects, in any state and whether they succeed or fail (`Builder.Advances`).
-/

namespace Shading

open List Option

variable {ir mid later : Builder} {order : List ObjectId} {id : ObjectId} {kind : ObjectKind}
  {put taken put' taken' : List (ObjectId × InstId)}

namespace Builder

/-! ## What is left by an operation -/

/-- Blocks are listed in the order `order`, and at most one object is made. -/
structure Advances (ir : Builder) (order : List ObjectId) (put taken : List (ObjectId × InstId))
    (later : Builder) : Prop where
  neat : later.Neat order
  becomes : ∃ made?, ir.Becomes made? put taken later
  allocated : later.objects.allocated ≤ ir.objects.allocated + 1

lemma Fades.advances (hf : ir.Fades put taken later) (h : later.Neat order) : ir.Advances order put taken later :=
  ⟨h, ⟨none, hf.becomes⟩, Nat.le_succ_of_le (Nat.le_of_eq hf.objects.allocated)⟩

lemma Still.advances (h : ir.Neat order) (hs : ir.Still put taken later) : ir.Advances order put taken later :=
  hs.fades.advances (hs.neat h)

lemma Advances.refl (h : ir.Neat order) : ir.Advances order [] [] ir := (Still.refl ir).advances h

lemma Advances.still (h : ir.Advances order put taken mid) (hs : mid.Still put' taken' later) :
    ir.Advances order (put ++ put') (taken ++ taken') later := by
  obtain ⟨made?, hbecomes⟩ := h.becomes
  exact ⟨hs.neat h.neat, ⟨made?, hbecomes.trans hs.fades.becomes⟩, hs.fades.objects.allocated ▸ h.allocated⟩

/-! ## Immediates -/

lemma Interned.lookup_iff (h : ir.Interned) (key : ImmediateKey) (id : ObjectId) :
    ir.immediates.lookup key = some id ↔ ir.Interns id key := by
  rw [lookup_eq_some_iff, ← h.mem]
  constructor
  · rintro ⟨before, after, heq, -⟩
    rw [heq]
    exact mem_append_right _ mem_cons_self
  · intro hm
    obtain ⟨before, after, heq⟩ := append_of_mem hm
    have hnodup := h.nodup
    rw [heq, map_append, map_cons, nodup_append] at hnodup
    refine ⟨before, after, heq, fun pair hpair => ?_⟩
    exact bne_iff_ne.mpr (hnodup.2.2 _ (mem_map_of_mem hpair) _ mem_cons_self).symm

/-- The entry that is found is live, so asking whether it is changes nothing. -/
lemma Interned.filter_lookup (h : ir.Interned) (key : ImmediateKey) :
    (ir.immediates.lookup key).filter ir.objects.contains = ir.immediates.lookup key := by
  cases hfound : ir.immediates.lookup key with
  | none => rfl
  | some id =>
    obtain ⟨operand, hk, -⟩ := (h.lookup_iff key id).mp hfound
    obtain ⟨refs, ho⟩ := object?_eq_of_kind? hk
    exact filter_some_pos (contains_iff.mpr ⟨_, ho⟩)

end Builder

namespace Build

open Builder

/-! ## Operations without new objects -/

lemma retain_stilling (id : ObjectId) : Along Stills (retain id) :=
  .bind (.of_fixed (object_checks · id)) fun _ => modifyRefs_stilling id (· + 1)

lemma fixupBlocks_stilling : Along Stills fixupBlocks := by
  refine .get_bind fun found => .forM (fun id => .check (block_checks · id) fun ir block hb => ?_) found.blocks
  have hfixup : block.fixup.id = block.id ∧
      (block.fixup.prev?, block.fixup.next?) = (block.prev?, block.next?) := by
    unfold Block.fixup
    split <;> exact ⟨rfl, rfl⟩
  exact .of_gives (.of_run (modifyObject_run _)
    (@Still.setBlock ir id _ block [] [] hb (.of_code hfixup.1 block.instructions_fixup .fixup)
      hfixup.2))

lemma emit_advances (h : ir.Neat order) (tgt : ObjectId) (opcode : Opcode) (opds : List ObjectId) :
    Ends (emit tgt opcode opds) ir (fun inst => ir.Advances order [(tgt, inst)] []) fun _ later => later = ir := by
  refine (emit_stores ir tgt opcode opds).mono ?_ fun _ _ hbad => hbad.1
  rintro inst _ ⟨instructions, block, -, hb, hlive, rfl⟩
  have hlive' : ∀ opd ∈ opds, ∃ kind, ({ ir with instructions } : Builder).shape? opd = some kind := hlive
  have hkept := (retainAll_run hlive').2.1
  have hstored : ir.Advances order [] [] { ir with instructions } :=
    ⟨⟨h.wellFormed, h.ordered.congr (fun _ => rfl) rfl rfl, h.entry⟩,
      ⟨none, .of_kinds (fun _ => rfl) rfl fun _ h => h⟩, Nat.le_succ _⟩
  have hkeeps : block.Keeps [inst] [] { block with slots := block.slots ++ [some inst] } := by
    have hcode : ({ block with slots := block.slots ++ [some inst] } : Block).instructions =
        block.instructions ++ [inst] := filterMap_append
    refine ⟨rfl, by rw [hcode], by rw [hcode, append_nil], fun hm hclean hmem => ?_⟩
    exact hm hclean ((mem_append.mp hmem).resolve_right (by simp))
  exact (hstored.still (.retained opds)).still (Still.setBlock ((hkept.block tgt).trans hb) hkeeps rfl)

/-! ## New objects -/

lemma allocObject_stores (hw : ir.objects.WellFormed) (kind : ObjectKind) :
    Ends (allocObject kind) ir (fun id => Stores ir id kind) fun _ later => later = ir :=
  (@allocObject_stores_or_full ir True hw kind).mono (fun _ _ hstores => hstores) fun _ _ hbad => hbad.1

namespace Stores

lemma kind? (h : Stores ir id kind later) (other : ObjectId) : later.kind? other = if other = id then some kind
    else ir.kind? other := by
  split
  · rename_i heq
    rw [heq, Builder.kind?, h.self]
    rfl
  · rename_i hne
    rw [Builder.kind?, h.others other hne, Builder.kind?]

lemma neat (h : Stores ir id kind later) (hblk : kind.block? = none) (hneat : ir.Neat order) :
    later.Neat order := by
  refine ⟨h.wellFormed, h.ordered hneat.ordered hblk, fun other hother => ?_⟩
  rw [h.rest] at hother
  exact hneat.entry other hother

lemma interned (h : Stores ir id kind later) (hother : ∀ operand, kind ≠ .immediate operand)
    (hi : ir.Interned) : later.Interned := by
  refine hi.of_kinds (by rw [h.rest]) fun other operand => ?_
  rw [h.kind?]
  split
  · rename_i heq
    rw [heq, Builder.kind?, h.fresh]
    exact ⟨fun hk => absurd (some.inj hk) (hother operand), fun hk => by cases hk⟩
  · rfl

/-- An immediate is entered in the table in which it was not found. -/
lemma entered {opd : ImmediateOperand} (h : Stores ir id (.immediate opd) later) (hi : ir.Interned)
    (hmissing : (ir.immediates.lookup opd.key).filter ir.objects.contains = none) :
    ({ later with immediates := (opd.key, id) :: later.immediates.filter (·.1 ≠ opd.key) } :
      Builder).Interned := by
  rw [hi.filter_lookup, lookup_eq_none_iff] at hmissing
  have himms : later.immediates = ir.immediates := by rw [h.rest]
  have hall : later.immediates.filter (·.1 ≠ opd.key) = ir.immediates := by
    rw [himms, filter_eq_self]
    exact fun pair hm => decide_eq_true (bne_iff_ne.mp (hmissing pair hm)).symm
  refine ⟨fun key other => ?_, ?_⟩
  · dsimp only
    rw [hall, mem_cons, Prod.mk.injEq, hi.mem, Interns, Interns]
    change _ ↔ ∃ shown, later.kind? other = some (.immediate shown) ∧ shown.key = key
    rw [h.kind?]
    split
    · rename_i heq
      rw [heq, Builder.kind?, h.fresh]
      constructor
      · rintro (⟨hkey, -⟩ | ⟨_, ⟨⟩, -⟩)
        exact ⟨opd, rfl, hkey.symm⟩
      · rintro ⟨_, ⟨⟩, hkey⟩
        exact .inl ⟨hkey.symm, rfl⟩
    · rename_i hne
      exact ⟨fun hor => hor.resolve_left fun hand => hne hand.2, .inr⟩
  · dsimp only
    rw [hall, map_cons, nodup_cons]
    refine ⟨fun hm => ?_, hi.nodup⟩
    obtain ⟨pair, hpair, hkey⟩ := mem_map.mp hm
    exact bne_iff_ne.mp (hmissing pair hpair) hkey.symm

lemma advances (h : Stores ir id kind mid) (hblk : kind.block? = none) (hnum : kind.number? = none)
    (hobjs : later.objects = mid.objects)
    (hneat : later.Neat order) (hcounted : ∀ num, mid.Counted num → later.Counted num)
    (hinterned : ir.Interned → later.Interned) : ir.Advances order [] [] later := by
  have hk (other : ObjectId) : later.kind? other = if other = id then some kind else ir.kind? other := by
    rw [Builder.kind?, object?, hobjs]
    exact h.kind? other
  refine ⟨hneat, ⟨some id, .made h.fresh hk (fun num hn => hcounted num ?_) (fun num hn => ?_)
    (fun block heq => ?_) hinterned⟩, ?_⟩
  · rw [h.rest]
    exact hn
  · rw [hnum] at hn
    cases hn
  · rw [heq] at hblk
    cases hblk
  · exact Nat.le_of_eq ((congrArg _ hobjs).trans h.allocated)

end Stores

section Make

variable (h : ir.Neat order)

include h

lemma allocRegister_advances (registerClass : RegisterClass) (width : Nat) :
    Ends (allocRegister registerClass width) ir (fun _ => ir.Advances order [] []) fun _ =>
      ir.Advances order [] [] := by
  let counted : Builder := { ir with registerCount := ir.registerCount + 1 }
  have hmore (num : Number) (hn : ir.Counted num) : counted.Counted num := by
    cases num with
    | block num => exact hn
    | register num => exact Nat.le_succ_of_le hn
  have hneat : counted.Neat order := ⟨h.wellFormed, h.ordered.congr (fun _ => rfl) rfl rfl, h.entry⟩
  refine (allocRegister_stores h.wellFormed registerClass width).mono (fun id later hstores => ?_)
    fun _ later hbad => ?_
  · refine ⟨hstores.neat rfl hneat,
      ⟨some id, .made hstores.fresh hstores.kind? (fun num hn => ?_) (fun num hn => ?_) nofun
      fun hi => hstores.interned nofun ⟨hi.mem, hi.nodup⟩⟩, Nat.le_of_eq hstores.allocated⟩
    · rw [hstores.rest]
      exact hmore num hn
    · obtain rfl : Number.register (ir.registerCount + 1) = num := some.inj hn
      rw [hstores.rest]
      exact ⟨Nat.not_succ_le_self _, Nat.le_refl _⟩
  · rw [hbad.1]
    exact ⟨hneat, ⟨none, .of_kinds (fun _ => rfl) rfl hmore⟩, Nat.le_succ _⟩

lemma newMemory_advances (base : ObjectId) (index? : Option ObjectId) (off : Int32) :
    Ends (newMemory base index? off) ir (fun _ => ir.Advances order [] []) fun _ later => later = ir := by
  refine (newMemory_stores h.wellFormed base index? off).mono ?_ fun _ _ hbad => hbad.1
  rintro id _ ⟨mid, hstores, -, rfl⟩
  exact (hstores.advances rfl rfl rfl (hstores.neat rfl h) (fun _ hn => hn) (hstores.interned nofun)).still
    (.retained _)

lemma internImmediate_advances (opd : ImmediateOperand) :
    Ends (internImmediate opd) ir (fun _ => ir.Advances order [] []) fun _ later => later = ir := by
  unfold internImmediate
  refine .step rfl ?_
  split
  · exact .of_gives (.pure (.refl h))
  · rename_i hmissing
    refine .bind (allocObject_stores h.wellFormed _) fun id mid hstores => ?_
    have hneat := hstores.neat rfl h
    exact .of_gives (.step rfl
      (.pure (hstores.advances rfl rfl rfl ⟨hneat.wellFormed, hneat.ordered.congr (fun _ => rfl) rfl rfl,
        hneat.entry⟩
      (fun _ hn => hn) fun hi => hstores.entered hi hmissing)))

lemma allocBlock_makes (kind : BlockKind) :
    Ends (allocBlock kind) ir (fun id later => ir.object? id = none ∧ ir.Becomes (some id) [] [] later ∧
      later.objects.allocated = ir.objects.allocated + 1 ∧ later.objects.WellFormed ∧ later.Listed order ∧
      id ∉ order ∧ later.entryBlock? = ir.entryBlock? ∧ (∃ links, later.links? id = some links) ∧
      ∀ other block, later.block? other = some block → other = id ∨ other ∈ order) fun _ later =>
      later = ir := by
  unfold allocBlock
  refine .step rfl (.bind (allocObject_stores h.wellFormed _) fun id mid hstores =>
    .of_gives (.step rfl (.pure ?_)))
  obtain ⟨hlisted, hnot, hcomplete⟩ := hstores.listed h.ordered
  have hcount : mid.blockCount = ir.blockCount := by rw [hstores.rest]
  have hregisters : mid.registerCount = ir.registerCount := by rw [hstores.rest]
  refine ⟨hstores.fresh, .made hstores.fresh hstores.kind? (fun num hn => ?_) (fun num hn => ?_)
    (fun block heq => ?_) fun hi => ?_,
    hstores.allocated, hstores.wellFormed, hlisted.congr (fun _ _ => rfl) rfl rfl, hnot, ?_, ?_, hcomplete⟩
  · cases num with
    | block num => exact Nat.le_succ_of_le (hcount ▸ hn)
    | register num => exact Nat.le_trans hn (Nat.le_of_eq hregisters.symm)
  · obtain rfl : Number.block (ir.blockCount + 1) = num := some.inj hn
    exact ⟨Nat.not_succ_le_self _, Nat.le_of_eq (congrArg (· + 1) hcount.symm)⟩
  · cases heq
    rfl
  · have hi' := hstores.interned nofun hi
    exact ⟨hi'.mem, hi'.nodup⟩
  · dsimp only
    rw [hstores.rest]
  · have hblk : mid.block? id = some (.create (ir.blockCount + 1) kind) := by
      rw [block?, kind?, hstores.self]
      rfl
    exact ⟨(none, none),
      by rw [links?, block?, kind?]; exact congrArg (Option.map fun block => (block.prev?, block.next?)) hblk⟩

lemma newBlock_advances : Ends newBlock ir (fun id later => ir.object? id = none ∧
    ir.Advances (order ++ [id]) [] [] later) fun _ later => later = ir := by
  refine .bind (allocBlock_makes h .basic) ?_
  rintro id mid ⟨hfresh, hbecomes, halloc, hw, hlisted, hnot, hentry, ⟨links, hlinks⟩, hcomplete⟩
  refine .of_gives (.bind (linkLast_gives hlisted hlinks hnot) ?_)
  rintro - later ⟨hlisted', hcut⟩
  have hfades := Fades.of_unlinked hcut
  have hentry' : later.unlinked.entryBlock? = mid.unlinked.entryBlock? := by rw [hcut]
  refine .pure ⟨hfresh, ⟨hfades.objects.wellFormed hw, hlisted'.ordered hcut fun other block hb => ?_,
    fun other hother => ?_⟩,
    ⟨some id, hbecomes.trans hfades.becomes⟩, Nat.le_of_eq (hfades.objects.allocated.trans halloc)⟩
  · rw [mem_append, mem_singleton]
    exact (hcomplete other block hb).symm
  · exact mem_append_left _ (h.entry other (hentry ▸ hentry' ▸ hother))

lemma initEntry_advances : Ends initEntry ir (fun id later => ir.object? id = none ∧
    ir.Advances (id :: order) [] [] later) fun _ later => later = ir := by
  unfold initEntry
  refine .step rfl ?_
  split
  · exact .of_error rfl rfl
  refine .bind (allocBlock_makes h .entry) ?_
  rintro id mid ⟨hfresh, hbecomes, halloc, hw, hlisted, hnot, hentry, ⟨links, hlinks⟩, hcomplete⟩
  refine .of_gives (.bind (linkFirst_gives hlisted hlinks hnot) ?_)
  rintro - late ⟨hlisted', hcut⟩
  have hord : late.Ordered (id :: order) := hlisted'.ordered hcut fun other block hb =>
    mem_cons.mpr (hcomplete other block hb)
  have hfades := Fades.of_unlinked hcut
  obtain ⟨obj, ho⟩ := contains_iff.mp (hord.contains (.head _))
  have hstill := (retain_stilling id late).ok (retain_run ho)
  have hretained := hfades.trans hstill.fades
  refine .step (retain_run ho)
    (.step rfl (.pure ⟨hfresh, ⟨hretained.objects.wellFormed hw, ?_, fun other hother => ?_⟩, ⟨some id, ?_⟩,
    Nat.le_of_eq (hretained.objects.allocated.trans halloc)⟩))
  · exact (hord.congr hstill.links hstill.ends.1 hstill.ends.2).congr (fun _ => rfl) rfl rfl
  · obtain rfl : id = other := some.inj hother
    exact mem_cons_self ..
  · exact (hbecomes.trans hretained.becomes).trans (.of_kinds (fun _ => rfl) rfl fun _ h => h)

lemma moveToEnd_advances (id : ObjectId) : Ends (moveToEnd id) ir
    (fun _ later => id ∈ order ∧ ir.Advances (order.erase id ++ [id]) [] [] later) fun _ later => later = ir := by
  refine (moveToEnd_ends h.ordered id).mono ?_ fun _ _ heq => heq
  rintro - later ⟨hm, hord, hcut⟩
  have hfades := Fades.of_unlinked hcut
  have hentry : later.unlinked.entryBlock? = ir.unlinked.entryBlock? := by rw [hcut]
  refine ⟨hm, hfades.advances ⟨hfades.objects.wellFormed h.wellFormed, hord, fun other hother => ?_⟩⟩
  have hother' := h.entry other (hentry ▸ hother)
  by_cases heq : other = id
  · exact mem_append_right _ (mem_singleton.mpr heq)
  · exact mem_append_left _ ((mem_erase_of_ne heq).mpr hother')

end Make

end Build

end Shading
