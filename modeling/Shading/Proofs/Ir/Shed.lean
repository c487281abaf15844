import Shading.Proofs.Ir.Becoming

/-!
# Removal, whatever the counts

A caller may remove any object and release any reference, so that counts and
names need not agree.  Removal can fail then, halfway.  Still, at each moment
the links of the blocks spell a list of all live blocks, in the order they had
(`Builder.Sheds`): a block is taken off the list and freed in one go, and
nothing else touches the links.
-/

namespace Shading

open Arena
open List hiding contains

variable {α β : Type} {ir mid later : Builder} {order : List ObjectId} {id : ObjectId} {obj : Object}
  {put taken put' taken' : List (ObjectId × InstId)} {block : Block}

/-! ## Objects and the list of blocks -/

namespace Builder

/-- The links spell the list of all live blocks; the entry block is one of
them. -/
structure Neat (ir : Builder) (order : List ObjectId) : Prop where
  wellFormed : ir.objects.WellFormed
  ordered : ir.Ordered order
  entry : ∀ id, ir.entryBlock? = some id → id ∈ order

/-- The instruction in a slot of a block. -/
def slot? (ir : Builder) (target : ObjectId) (slot : Nat) : Option InstId :=
  (ir.block? target).bind (·.slots[slot]?.join)

lemma Ordered.contains (h : ir.Ordered order) (hm : id ∈ order) : ir.objects.contains id = true := by
  obtain ⟨block, hb⟩ := h.block hm
  obtain ⟨refs, ho⟩ := object?_of_block? hb
  exact contains_iff.mpr ⟨_, ho⟩

lemma Ordered.filter_contains (h : ir.Ordered order) : order.filter ir.objects.contains = order :=
  filter_eq_self.mpr fun _ hm => h.contains hm

lemma Ordered.length_le (h : ir.Ordered order) (hw : ir.objects.WellFormed) :
    order.length ≤ ir.objects.live := by
  have hsubset : order ⊆ ir.objects.entries.map Prod.fst := by
    intro id hm
    obtain ⟨obj, ho⟩ := contains_iff.mp (h.contains hm)
    exact mem_map.mpr ⟨_, mem_entries.mpr ho, rfl⟩
  have hlen := (subperm_of_subset h.nodup hsubset).length_le
  rwa [length_map, ← hw.live] at hlen

/-- Blocks and links stay. -/
structure Still (ir : Builder) (put taken : List (ObjectId × InstId)) (later : Builder) : Prop where
  fades : ir.Fades put taken later
  links : ∀ id, later.links? id = ir.links? id
  ends : later.first? = ir.first? ∧ later.last? = ir.last?
  entry : later.entryBlock? = ir.entryBlock?

namespace Still

lemma refl (ir : Builder) : ir.Still [] [] ir := ⟨.refl ir, fun _ => rfl, ⟨rfl, rfl⟩, rfl⟩

lemma trans (h : ir.Still put taken mid) (h' : mid.Still put' taken' later) : ir.Still (put ++ put')
    (taken ++ taken') later :=
  ⟨h.fades.trans h'.fades, fun id => (h'.links id).trans (h.links id),
    ⟨h'.ends.1.trans h.ends.1, h'.ends.2.trans h.ends.2⟩, h'.entry.trans h.entry⟩

lemma neat (h : ir.Neat order) (hs : ir.Still put taken later) : later.Neat order :=
  ⟨hs.fades.objects.wellFormed h.wellFormed, h.ordered.congr hs.links hs.ends.1 hs.ends.2, fun id hid =>
    h.entry id (hs.entry ▸ hid)⟩

/-- The objects stay as they are. -/
lemma rest (hobjs : later.objects = ir.objects) (hinsts : ir.instructions.Fades later.instructions)
    (himms : later.immediates = ir.immediates) (hcounted : ∀ number, ir.Counted number → later.Counted number)
    (hends : later.first? = ir.first? ∧ later.last? = ir.last?) (hentry : later.entryBlock? = ir.entryBlock?) :
    ir.Still [] [] later := by
  have hk (id : ObjectId) : later.kind? id = ir.kind? id := by rw [kind?, object?, hobjs, kind?, object?]
  exact ⟨⟨.of_eq hobjs, hinsts, .of_kinds hk himms hcounted⟩, fun id =>
    by rw [links?, block?, hk, links?, block?], hends, hentry⟩

lemma setRefs (ir : Builder) (id : ObjectId) (f : Nat → Nat) :
    ir.Still [] [] (ir.setObject id fun obj => { obj with refs := f obj.refs }) := by
  cases ho : ir.object? id with
  | none =>
    have hc : ¬ir.objects.contains id = true := by rw [Arena.contains, ← object?, ho]; exact Bool.false_ne_true
    rw [setObject, Arena.modify, if_neg hc]
    exact refl ir
  | some obj =>
    refine ⟨⟨.modify _, .refl _, @Becomes.setObject ir id obj _ [] [] ho (.refl _)⟩, fun other => ?_,
      ⟨rfl, rfl⟩, rfl⟩
    rw [links?, (Kept.setRefs ho f).block, links?]

lemma retained (ids : List ObjectId) : ir.Still [] [] (ir.retained ids) := by
  induction ids generalizing ir with
  | nil => exact refl ir
  | cons id rest ih => exact (setRefs ir id (· + 1)).trans ih

lemma setBlock {old : Block} {put taken : List InstId} (hb : ir.block? id = some old)
    (hkeeps : old.Keeps put taken block) (hlinks : (block.prev?, block.next?) = (old.prev?, old.next?)) :
    ir.Still (put.map (id, ·)) (taken.map (id, ·)) (ir.setBlock id block) := by
  obtain ⟨refs, ho⟩ := object?_of_block? hb
  exact ⟨⟨.modify _, .refl _, .setObject ho (.block hkeeps)⟩, links?_setBlock hb hlinks, ⟨rfl, rfl⟩, rfl⟩

lemma free (hother : ∀ operand, ir.kind? id ≠ some (.immediate operand)) (hk : ∀ kind, ir.kind? id = some kind →
    kind.block? = none) : ir.Still [] [] { ir with objects := ir.objects.erase id } := by
  refine ⟨⟨.erase _ id, .refl _, .free hother⟩, fun other => ?_, ⟨rfl, rfl⟩, rfl⟩
  cases ho : ir.object? id with
  | none => rw [erase_of_none ho]
  | some obj => rw [links?, (Kept.free ho (hk _ (kind?_of_object? ho))).block, links?]

end Still

/-- Removal leaves the live blocks in the order they had. -/
structure Shed (ir : Builder) (order : List ObjectId) (taken : List (ObjectId × InstId)) (later : Builder) :
    Prop where
  fades : ir.Fades [] taken later
  ordered : later.Ordered (order.filter later.objects.contains)
  entry : ∀ id, later.entryBlock? = some id → ir.entryBlock? = some id ∧ later.objects.contains id = true

lemma Still.shed (hs : ir.Still [] taken later) (h : ir.Neat order) : ir.Shed order taken later := by
  have hord := (hs.neat h).ordered
  refine ⟨hs.fades, by rwa [hord.filter_contains], fun id hid => ?_⟩
  rw [hs.entry] at hid
  exact ⟨hid, hord.contains (h.entry id hid)⟩

namespace Shed

lemma neat (h : ir.Neat order) (hs : ir.Shed order taken later) :
    later.Neat (order.filter later.objects.contains) :=
  ⟨hs.fades.objects.wellFormed h.wellFormed, hs.ordered, fun id hid =>
    mem_filter.mpr ⟨h.entry id (hs.entry id hid).1, (hs.entry id hid).2⟩⟩

lemma trans (h : ir.Shed order taken mid) (h' : mid.Shed (order.filter mid.objects.contains) taken' later) :
    ir.Shed order (taken ++ taken') later := by
  refine ⟨h.fades.trans h'.fades, ?_, fun id hid => ⟨(h.entry id (h'.entry id hid).1).1, (h'.entry id hid).2⟩⟩
  have hord := h'.ordered
  rw [filter_filter] at hord
  have hfilter : order.filter later.objects.contains =
      order.filter fun id => later.objects.contains id && mid.objects.contains id := by
    refine filter_congr fun id _ => ?_
    cases hc : later.objects.contains id with
    | false => rfl
    | true => rw [h'.fades.contains hc, Bool.and_self]
  rwa [hfilter]

end Shed

/-- Removal from a builder in any order. -/
def Sheds (ir later : Builder) : Prop := ∀ order, ir.Neat order → ir.Shed order [] later

def Stills (ir later : Builder) : Prop := ir.Still [] [] later

instance : IsPreorder Builder Stills where
  refl := .refl
  trans _ _ _ := .trans

instance : IsPreorder Builder Sheds where
  refl ir _ h := (Still.refl ir).shed h
  trans _ _ _ h h' order hneat := (h order hneat).trans (h' _ ((h order hneat).neat hneat))

lemma Stills.sheds (h : ir.Stills later) : ir.Sheds later := fun _ hneat => h.shed hneat

end Builder

namespace Build

open Builder

/-- Whatever becomes of an action, it goes along a relation. -/
def Along (related : Builder → Builder → Prop) (action : Build α) : Prop :=
  ∀ ir, Ends action ir (fun _ => related ir) fun _ => related ir

namespace Along

variable {R S : Builder → Builder → Prop} {x : Build α} {f : α → Build β}

lemma mono (h : Along R x) (hle : ∀ ir later, R ir later → S ir later) : Along S x :=
  fun ir => (h ir).mono (fun _ later => hle ir later) fun _ later => hle ir later

lemma modify {change : Builder → Builder} (h : ∀ ir, R ir (change ir)) : Along R (modify change) :=
  fun ir => .of_gives (.of_run rfl (h ir))

lemma get_bind {f : Builder → Build β} (hf : ∀ found, Along R (f found)) : Along R (get >>= f) :=
  fun ir => Ends.step rfl (hf ir ir)

variable [IsPreorder Builder R]

lemma pure (a : α) : Along R (Pure.pure a) := fun ir => .of_gives (.pure (refl_of R ir))

lemma fail (fault : BuilderFault) : Along R (Build.fail fault : Build α) := fun ir => .of_error rfl (refl_of R ir)

lemma bind (hx : Along R x) (hf : ∀ a, Along R (f a)) : Along R (x >>= f) := fun ir =>
  (hx ir).bind fun a mid hmid => (hf a mid).mono (fun _ _ => trans_of R hmid) fun _ _ => trans_of R hmid

lemma forM {f : α → Build Unit} (hf : ∀ a, Along R (f a)) (as : List α) : Along R (as.forM f) := by
  induction as with
  | nil => exact pure ()
  | cons a rest ih =>
    rw [List.forM]
    exact bind (hf a) fun _ => ih

/-- A look at the state. -/
lemma check {found : Builder → α → Prop} (hx : ∀ ir, Checks x ir (found ir))
    (hf : ∀ ir a, found ir a → Ends (f a) ir (fun _ => R ir) fun _ => R ir) : Along R (x >>= f) :=
  fun ir => .check (hx ir) (fun _ _ => refl_of R ir) (hf ir)

lemma of_fixed {found : Builder → α → Prop} (h : ∀ ir, Checks x ir (found ir)) : Along R x :=
  fun ir => Ends.mono (h ir) (fun _ _ hgood => hgood.1 ▸ refl_of R ir) fun _ _ hbad => hbad.1 ▸ refl_of R ir

end Along

lemma sheds_of_neat {act : Build α} (h : ∀ order, ir.Neat order → Ends act ir (fun _ => ir.Shed order [])
    fun _ => ir.Shed order []) : Ends act ir (fun _ => ir.Sheds) fun _ => ir.Sheds := by
  unfold Ends at h ⊢
  split
  · rename_i hrun
    simp only [hrun] at h
    exact h
  · rename_i hrun
    simp only [hrun] at h
    exact h

/-! ## Removal -/

lemma modifyRefs_stilling (id : ObjectId) (f : Nat → Nat) :
    Along Stills (modifyObject id fun obj => { obj with refs := f obj.refs }) :=
  .modify fun ir => .setRefs ir id f

lemma freeOperand_sheds {kind : ObjectKind} (hk : ir.kind? id = some kind) (hblk : kind.block? = none)
    (hother : ∀ operand, kind ≠ .immediate operand) (h : ir.Neat order) (hshed : ir.Shed order [] mid) :
    Ends (freeObject id) mid (fun _ => ir.Shed order []) fun _ => ir.Shed order [] := by
  -- It is what it was, or is gone.
  have hsame (kind' : ObjectKind) (hk' : mid.kind? id = some kind') : kind' = kind := by
    obtain ⟨old, hold, hkeeps⟩ := (hshed.fades.becomes.kinds id kind' hk').resolve_right fun hmade =>
      by cases hmade.1
    obtain rfl : kind = old := Option.some.inj (hk.symm.trans hold)
    exact hkeeps.block?_eq_none hblk
  refine .of_gives (.of_run rfl (hshed.trans (Still.shed (.free (fun operand hi => ?_) fun kind' hk' => ?_)
    (hshed.neat h))))
  · exact hother operand (hsame _ hi).symm
  · rw [hsame kind' hk', hblk]

lemma takeBlock_sheds {rest : Build Unit} (hrest : Along Sheds rest) (h : ir.Neat order)
    (hb : ir.block? id = some block) :
    Ends (do
      unlink id
      freeObject id
      modify fun ir => if ir.entryBlock? = some id then { ir with entryBlock? := none } else ir
      rest) ir (fun _ later => ir.Shed order [] later ∧ later.object? id = none) fun _ => ir.Shed order [] := by
  obtain ⟨pre, after, rfl⟩ := append_of_mem (h.ordered.complete id block hb)
  refine .bind (.of_gives (unlink_gives h.ordered.toListed)) ?_
  rintro - mid ⟨hlisted, hcut⟩
  obtain ⟨block', hb', -⟩ := block?_of_unlinked hcut hb
  obtain ⟨refs, ho⟩ := object?_of_block? hb'
  let freed : Builder := { mid with objects := mid.objects.erase id }
  have hgone : freed.object? id = none := get?_erase_self ho
  have hord : freed.Ordered (pre ++ after) := h.ordered.free hlisted hcut ho
  have hfreed : mid.Fades [] [] freed := ⟨.erase _ id, .refl _, .free fun operand hi => by
    rw [kind?_of_block? hb'] at hi
    cases hi⟩
  let left : Builder := if freed.entryBlock? = some id then { freed with entryBlock? := none } else freed
  have hobjs : left.objects = freed.objects := by
    dsimp only [left]
    split <;> rfl
  have hshed : ir.Shed (pre ++ id :: after) [] left := by
    have hdead : ¬freed.objects.contains id = true := by
      rw [contains, ← object?, hgone]
      exact Bool.false_ne_true
    have hunlinkedEntry : mid.unlinked.entryBlock? = ir.unlinked.entryBlock? := by rw [hcut]
    refine ⟨(Fades.of_unlinked hcut).trans (hfreed.trans ?_), ?_, fun other hother => ?_⟩
    · dsimp only [left]
      split
      · exact ⟨.refl _, .refl _, .of_kinds (fun _ => rfl) rfl fun _ h => h⟩
      · exact .refl freed
    · rw [hobjs, filter_append, filter_cons, if_neg hdead, ← filter_append, hord.filter_contains]
      refine hord.congr (fun other => ?_) ?_ ?_
      · rw [links?, block?, kind?, object?, hobjs, links?, block?, kind?, object?]
      all_goals dsimp only [left]; split <;> rfl
    · dsimp only [left] at hother
      split at hother
      · cases hother
      · rename_i hne
        have hentry : ir.entryBlock? = some other := hunlinkedEntry ▸ hother
        have hm := h.entry other hentry
        have hother' : other ≠ id := fun heq => hne (heq ▸ hother)
        simp only [mem_append, mem_cons, hother', false_or] at hm
        rw [hobjs]
        exact ⟨hentry, hord.contains (mem_append.mpr hm)⟩
  refine .step rfl (.step rfl ((hrest left).mono (fun _ later hlater => ?_) fun _ later hlater =>
    hshed.trans (hlater _ (hshed.neat h))))
  have hlater := hlater _ (hshed.neat h)
  refine ⟨hshed.trans hlater, ?_⟩
  cases hobj : later.object? id with
  | none => rfl
  | some obj =>
    obtain ⟨old, hold⟩ := Arena.contains_iff.mp (hlater.fades.contains (Arena.contains_iff.mpr ⟨obj, hobj⟩))
    rw [hobjs, ← object?, hgone] at hold
    cases hold

section

variable {delete : ObjectId → Build Unit} (hd : ∀ id, Along Sheds (delete id))

include hd

lemma releaseWith_shedding (id : ObjectId) : Along Sheds (releaseWith delete id) := by
  refine .bind (.of_fixed (object_checks · id)) fun obj => ?_
  split
  · exact .fail _
  · refine .bind ((modifyRefs_stilling id (· - 1)).mono fun _ _ => Stills.sheds) fun _ => ?_
    split
    · exact hd id
    · exact .pure ()

lemma deleteInstWith_shedding (inst : InstId) : Along Sheds (deleteInstWith delete inst) := by
  refine .get_bind fun found => ?_
  cases found.instruction? inst with
  | none => exact .fail _
  | some instr =>
    refine .bind (.forM (fun opd => .get_bind fun found => ?_) instr.operands) fun _ => .modify fun ir => ?_
    · split
      · exact releaseWith_shedding hd opd
      · exact .pure ()
    · exact Stills.sheds (.rest rfl (.erase _ inst) rfl (fun _ h => h) ⟨rfl, rfl⟩ rfl)

end

lemma deleteUpTo_shedding (bound : Nat) (id : ObjectId) : Along Sheds (deleteUpTo bound id) := by
  induction bound generalizing id with
  | zero => exact .pure ()
  | succ bound ih =>
    refine .check (object_checks · id) fun ir obj ho => sheds_of_neat fun order h => ?_
    have hkind := kind?_of_object? ho
    have hnone : ir.Shed order [] ir := (Still.refl ir).shed h
    have hrelease (id : ObjectId) {mid : Builder} (hmid : ir.Shed order [] mid) :
        Ends (releaseWith (deleteUpTo bound) id) mid (fun _ => ir.Shed order []) fun _ => ir.Shed order [] :=
      (releaseWith_shedding ih id mid).mono (fun _ _ hlater => hmid.trans (hlater _ (hmid.neat h)))
        fun _ _ hlater => hmid.trans (hlater _ (hmid.neat h))
    cases hk : obj.kind with
    | register reg => exact freeOperand_sheds (hk ▸ hkind) rfl (fun _ heq => by cases heq) h hnone
    | immediate opd =>
      refine .step rfl (.of_gives (.of_run rfl (Still.shed ⟨⟨.erase _ id, .refl _, .forget id⟩, fun other => ?_,
        ⟨rfl, rfl⟩, rfl⟩ h)))
      exact congrArg (Option.map _) ((Kept.free ho (by rw [hk]; rfl)).block other)
    | memory opd =>
      rw [hk] at hkind
      refine .bind (hrelease opd.base hnone) fun _ mid hmid => ?_
      cases opd.index? with
      | none => exact freeOperand_sheds hkind rfl nofun h hmid
      | some index => exact .bind (hrelease index hmid) fun _ _ => freeOperand_sheds hkind rfl nofun h
    | block block =>
      rw [hk] at hkind
      exact (takeBlock_sheds (.forM (deleteInstWith_shedding ih) block.instructions) h
        (block?_of_kind? hkind)).mono (fun _ _ hlater => hlater.1) fun _ _ hlater => hlater

lemma deleteObject_shedding (id : ObjectId) : Along Sheds (deleteObject id) := .get_bind fun _ =>
    deleteUpTo_shedding _ id

/-- A block that is removed without an error is gone. -/
lemma deleteObject_ends (h : ir.Neat order) (hb : ir.block? id = some block) :
    Ends (deleteObject id) ir (fun _ later => ir.Shed order [] later ∧ later.object? id = none)
      fun _ => ir.Shed order [] := by
  obtain ⟨refs, ho⟩ := object?_of_block? hb
  refine .step rfl ?_
  rw [deleteUpTo]
  exact .step (object_run ho)
    (takeBlock_sheds (.forM (deleteInstWith_shedding (deleteUpTo_shedding _)) block.instructions) h hb)

lemma release_shedding (id : ObjectId) : Along Sheds (release id) := releaseWith_shedding deleteObject_shedding id

lemma deleteInst_shedding (inst : InstId) : Along Sheds (deleteInst inst) :=
  deleteInstWith_shedding deleteObject_shedding inst

lemma removeInst_ends (h : ir.Neat order) (target : ObjectId) (slot : Nat) :
    Ends (removeInst target slot) ir (fun _ => ir.Shed order ((ir.slot? target slot).map (target, ·)).toList)
      fun _ => ir.Shed order ((ir.slot? target slot).map (target, ·)).toList := by
  have hnone := (Still.refl ir).shed h
  cases hb : ir.block? target with
  | none =>
    have hslot : ir.slot? target slot = none := by rw [slot?, hb]; rfl
    rw [hslot]
    refine .check (block_checks ir target) (fun _ _ => hnone) fun block hfound => ?_
    rw [hb] at hfound
    cases hfound
  | some block =>
    have hslot : ir.slot? target slot = block.slots[slot]?.join := by rw [slot?, hb]; rfl
    unfold removeInst
    refine .step (block_run hb) ?_
    rw [hslot]
    cases hinst : block.slots[slot]?.join with
    | none => exact .of_error rfl hnone
    | some inst =>
      refine .step (modifyBlock_run hb _) ?_
      obtain ⟨before, after, hold, hnew⟩ := block.instructions_split (Option.join_eq_some_iff.mp hinst)
      have hkeeps : block.Keeps [] [inst]
          { block with slots := block.slots.set slot none, requiresFixup := true } := by
        refine ⟨rfl, ?_, ?_, fun _ => nofun⟩
        · rw [Block.instructions, hnew, append_nil, hold]
          exact (sublist_cons_self ..).append_left before
        · rw [Block.instructions, hnew, append_nil, hold]
          exact (perm_append_singleton ..).trans perm_middle.symm
      have hshed := (Still.setBlock hb hkeeps rfl).shed h
      exact (deleteInst_shedding inst _).mono (fun _ _ hlater => hshed.trans (hlater _ (hshed.neat h)))
        fun _ _ hlater => hshed.trans (hlater _ (hshed.neat h))

/-! ## Removing everything -/

/-- No block is left if no error comes up. -/
lemma clearBlocks_ends {bound : Nat} (h : ir.Neat order) (hbound : order.length ≤ bound) :
    Ends (clearBlocks bound) ir (fun _ later => ir.Shed order [] later ∧ later.first? = none) fun _ =>
      ir.Shed order [] := by
  induction bound generalizing ir order with
  | zero =>
    obtain rfl : order = [] := eq_nil_of_length_eq_zero (Nat.le_zero.mp hbound)
    exact .of_gives (.pure ⟨(Still.refl ir).shed h, h.ordered.first⟩)
  | succ bound ih =>
    rw [clearBlocks]
    refine .step rfl ?_
    cases hfirst : ir.first? with
    | none => exact .of_gives (.pure ⟨(Still.refl ir).shed h, hfirst⟩)
    | some first =>
      have hm : first ∈ order := mem_of_mem_head? (h.ordered.first ▸ hfirst)
      obtain ⟨block, hb⟩ := h.ordered.block hm
      refine .bind (deleteObject_ends h hb) ?_
      rintro - mid ⟨hshed, hgone⟩
      have hfewer : (order.filter mid.objects.contains).length < order.length := by
        refine length_filter_lt_length_iff_exists.mpr ⟨first, hm, ?_⟩
        rw [contains, ← object?, hgone]
        exact Bool.false_ne_true
      refine (ih (hshed.neat h) (by omega)).mono ?_ fun _ _ hlater => hshed.trans hlater
      rintro _ later ⟨hlater, hnone⟩
      exact ⟨hshed.trans hlater, hnone⟩

lemma clearDataSlot_shedding (index : Nat) : Along Sheds (clearDataSlot index) := by
  refine .get_bind fun found => ?_
  cases found.dataSlot? index with
  | none => exact .pure ()
  | some id =>
    exact .bind (.modify fun ir => Stills.sheds (.rest rfl (.refl _) rfl (fun _ h => h) ⟨rfl, rfl⟩ rfl))
      fun _ => release_shedding id

lemma clear_shedding : Along Sheds clear := by
  refine fun ir => sheds_of_neat fun order h =>
    .step rfl (.bind (clearBlocks_ends h (h.ordered.length_le h.wellFormed)) ?_)
  rintro - mid ⟨hshed, hfirst⟩
  have hempty : order.filter mid.objects.contains = [] := head?_eq_none_iff.mp (hshed.ordered.first ▸ hfirst)
  have hneat := hshed.neat h
  rw [hempty] at hneat
  have hrest {later : Builder} (hlater : mid.Shed [] [] later) : ir.Shed order [] later :=
    hshed.trans (by rwa [hempty])
  refine .bind ((Along.forM clearDataSlot_shedding (range maxDataSlots) mid).mono (fun _ _ hlater =>
    hlater [] hneat) fun _ _ hlater => hrest (hlater [] hneat)) fun _ last hlast =>
      .of_gives (.of_run rfl (hrest ⟨hlast.fades.trans ?_, ?_, fun id hid => ?_⟩))
  · exact ⟨fades_clear _, fades_clear _, .clear rfl rfl fun _ h => h⟩
  · refine ⟨⟨hlast.ordered.first, hlast.ordered.last, .nil, trivial⟩, fun id block hb => ?_⟩
    rw [block?, kind?, object?, get?_clear] at hb
    cases hb
  · exact absurd ((hlast.neat hneat).entry id hid) not_mem_nil

end Build

end Shading
