import Mathlib.Order.Defs.Unbundled
import Shading.Proofs.Ir.Conservation

/-!
# What becomes of objects

Whatever a caller does, an object keeps its kind and its number as long as it
lives, a block has the instructions it had and those put in it, without those
taken out, and an immediate stands in the table under its key.  A new object
has a number that was not given before (`Builder.Becomes`).
-/

namespace Shading

open Arena
open List hiding contains

variable {α β : Type} {ir mid later : Builder} {id : ObjectId} {obj : Object} {kind old : ObjectKind}

/-! ## Arenas -/

/-- What becomes of a slot while entries are changed and removed: it loses its
entry, once, or is as vacant as it was. -/
def Slot.Fades {α : Type} (slot later : Slot α) : Prop :=
  later.generation = slot.generation ∧ later.value?.isSome = slot.value?.isSome ∨
    slot.value?.isSome = true ∧ later.value? = none ∧ later.generation = slot.generation + 1

lemma Slot.Fades.trans {slot mid later : Slot α} (h : slot.Fades mid) (h' : mid.Fades later) :
    slot.Fades later := by
  obtain ⟨hgen, hsome⟩ | ⟨hsome, hnone, hgen⟩ := h
  · obtain ⟨hgeneration', hsome'⟩ | ⟨hsome', hnone', hgeneration'⟩ := h'
    · exact .inl ⟨hgeneration'.trans hgen, hsome'.trans hsome⟩
    · exact .inr ⟨hsome.symm.trans hsome', hnone', by rw [hgeneration', hgen]⟩
  · obtain ⟨hgeneration', hsome'⟩ | ⟨hsome', -, -⟩ := h'
    · rw [hnone] at hsome'
      exact .inr ⟨hsome, Option.isNone_iff_eq_none.mp (by simpa using hsome'), hgeneration'.trans hgen⟩
    · rw [hnone] at hsome'
      cases hsome'

namespace Arena

variable {ar mid later : Arena α} {handle : Handle} {val : α}

/-- A handle that is stale removes nothing. -/
lemma erase_of_none (h : ar.get? handle = none) : ar.erase handle = ar := by
  unfold erase remove
  rw [h]
  rfl

/-- Entries are changed and removed, and none is stored. -/
structure Fades (arena later : Arena α) : Prop where
  slot : ∀ (index : Nat) (slot : Slot α), arena.slots[index]? = some slot →
    ∃ slot', later.slots[index]? = some slot' ∧ slot.Fades slot'
  allocated : later.allocated = arena.allocated
  wellFormed : arena.WellFormed → later.WellFormed

namespace Fades

lemma refl (ar : Arena α) : ar.Fades ar := ⟨fun _ slot hslot => ⟨slot, hslot, .inl ⟨rfl, rfl⟩⟩,
    rfl, fun h => h⟩

lemma of_eq (h : later = ar) : ar.Fades later := h ▸ refl ar

lemma trans (h : ar.Fades mid) (h' : mid.Fades later) : ar.Fades later where
  slot index slot hslot := by
    obtain ⟨slot', hslot', hfades⟩ := h.slot index slot hslot
    obtain ⟨slot'', hslot'', hfades'⟩ := h'.slot index slot' hslot'
    exact ⟨slot'', hslot'', hfades.trans hfades'⟩
  allocated := h'.allocated.trans h.allocated
  wellFormed hw := h'.wellFormed (h.wellFormed hw)

lemma modify (f : α → α) : ar.Fades (ar.modify handle f) := by
  refine ⟨fun index slot hslot => ?_, allocated_modify f, fun hw => hw.modify f⟩
  by_cases hc : ar.contains handle = true
  · obtain ⟨val, h⟩ := contains_iff.mp hc
    rw [modify_eq f h]
    dsimp only
    rw [Array.getElem?_modify]
    split
    · rw [hslot]
      exact ⟨_, rfl, .inl ⟨rfl, Option.isSome_map⟩⟩
    · exact ⟨slot, hslot, .inl ⟨rfl, rfl⟩⟩
  · rw [Arena.modify, if_neg hc]
    exact ⟨slot, hslot, .inl ⟨rfl, rfl⟩⟩

lemma erase (ar : Arena α) (handle : Handle) : ar.Fades (ar.erase handle) := by
  cases h : ar.get? handle with
  | none =>
    rw [erase_of_none h]
    exact refl ar
  | some val =>
    obtain ⟨stored, hsto, -, hval⟩ := get?_eq_some.mp h
    refine ⟨fun index slot hslot => ?_, allocated_erase h, fun hw => hw.erase h⟩
    rw [erase_eq h]
    dsimp only
    rw [Array.getElem?_modify]
    split
    · rename_i heq
      subst heq
      obtain rfl : slot = stored := Option.some.inj (hslot.symm.trans hsto)
      rw [hslot]
      exact ⟨_, rfl, .inr ⟨by rw [hval]; rfl, rfl, rfl⟩⟩
    · exact ⟨slot, hslot, .inl ⟨rfl, rfl⟩⟩

/-- Changes that do not show in a view remove nothing. -/
lemma of_map_eq {β : Type} {f : α → β} (h : later.map f = ar.map f) : ar.Fades later := by
  have hslots : later.slots.map (fun slot => (⟨slot.generation, slot.value?.map f⟩ : Slot β)) =
      ar.slots.map fun slot => ⟨slot.generation, slot.value?.map f⟩ := congrArg slots h
  have halloc : (later.map f).allocated = (ar.map f).allocated := by rw [h]
  refine ⟨fun index slot hslot => ?_, halloc, fun hw => ?_⟩
  · have hindex := congrArg (fun slots : Array (Slot β) => slots[index]?) hslots
    rw [Array.getElem?_map, Array.getElem?_map, hslot, Option.map_some] at hindex
    obtain ⟨slot', hslot', heq⟩ := Option.map_eq_some_iff.mp hindex
    have hval := congrArg (fun slot : Slot β => slot.value?.isSome) heq
    dsimp only at hval
    rw [Option.isSome_map, Option.isSome_map] at hval
    have hgen : slot'.generation = slot.generation := (Slot.mk.inj heq).1
    exact ⟨slot', hslot', .inl ⟨hgen, hval⟩⟩
  · rw [← wellFormed_map f, h, wellFormed_map f]
    exact hw

end Fades

/-! ### Removing entries -/

lemma get?_erase (ar : Arena α) (handle other : Handle) :
    (ar.erase handle).get? other = if other = handle then none else ar.get? other := by
  cases h : ar.get? handle with
  | none =>
    rw [erase_of_none h]
    split
    · rename_i heq
      rw [heq, h]
    · rfl
  | some val =>
    split
    · rename_i heq
      rw [heq, get?_erase_self h]
    · rename_i hne
      exact get?_erase_of_ne h hne

lemma eraseAll (handles : List Handle) (ar : Arena α) : ar.Fades (handles.foldl erase ar) ∧
    ∀ handle val, (handles.foldl erase ar).get? handle = some val →
      ar.get? handle = some val ∧ handle ∉ handles := by
  induction handles generalizing ar with
  | nil => exact ⟨.refl ar, fun _ _ h => ⟨h, not_mem_nil⟩⟩
  | cons first rest ih =>
    obtain ⟨hfades, hrest⟩ := ih (ar.erase first)
    refine ⟨(Fades.erase ar first).trans hfades, fun handle val h => ?_⟩
    obtain ⟨hsto, hnot⟩ := hrest handle val h
    rw [get?_erase, Option.ite_none_left_eq_some] at hsto
    exact ⟨hsto.2, not_mem_cons_of_ne_of_not_mem hsto.1 hnot⟩

lemma fades_clear (ar : Arena α) : ar.Fades ar.clear := (eraseAll _ ar).1

lemma get?_clear (ar : Arena α) (handle : Handle) : ar.clear.get? handle = none := by
  rw [Option.eq_none_iff_forall_ne_some]
  intro val h
  obtain ⟨hsto, hnot⟩ := (eraseAll _ ar).2 handle val h
  exact hnot (mem_map.mpr ⟨(handle, val), mem_entries.mpr hsto, rfl⟩)

end Arena

/-! ## Kinds -/

/-- The block has the instructions it had and those `put` in it, without those
`taken` out, in their order. -/
structure Block.Keeps (put taken : List InstId) (block later : Block) : Prop where
  id : later.id = block.id
  sublist : later.instructions <+ block.instructions ++ put
  perm : (later.instructions ++ taken).Perm (block.instructions ++ put)
  marked : block.Marked → later.Marked

lemma Block.Keeps.of_code {block later : Block} (hid : later.id = block.id)
    (hcode : later.instructions = block.instructions) (hmarked : block.Marked → later.Marked) :
    block.Keeps [] [] later :=
  ⟨hid, by rw [hcode, append_nil], by rw [hcode], hmarked⟩

/-- What is put in and taken out in a row. -/
lemma perm_in_row {kept between total put taken taken' : List InstId} (h : (kept ++ taken').Perm (between ++ put))
    (h' : (between ++ taken).Perm total) : (kept ++ (taken ++ taken')).Perm (total ++ put) :=
  calc kept ++ (taken ++ taken')
    _ ~ kept ++ taken' ++ taken := by
      rw [append_assoc]
      exact perm_append_comm.append_left _
    _ ~ between ++ put ++ taken := h.append_right _
    _ ~ between ++ taken ++ put := by
      rw [append_assoc, append_assoc]
      exact perm_append_comm.append_left _
    _ ~ total ++ put := h'.append_right _

lemma Block.Keeps.trans {put taken put' taken' : List InstId} {block between later : Block}
    (h : block.Keeps put taken between)
    (h' : between.Keeps put' taken' later) : block.Keeps (put ++ put') (taken ++ taken') later := by
  refine ⟨h'.id.trans h.id, ?_, ?_, fun hm => h'.marked (h.marked hm)⟩
  · rw [← append_assoc]
    exact h'.sublist.trans (h.sublist.append_right _)
  · rw [← append_assoc block.instructions]
    exact perm_in_row h'.perm h.perm

/-- What becomes of an object that is not freed. -/
inductive ObjectKind.Keeps (put taken : List InstId) : ObjectKind → ObjectKind → Prop
  | block {inside later : Block} (h : inside.Keeps put taken later) : Keeps put taken (.block inside)
      (.block later)
  | operand {kind : ObjectKind} (h : kind.block? = none) : Keeps put taken kind kind

/-- Number of a block or of a register. -/
inductive Number where
  | block (number : Nat)
  | register (number : Nat)
deriving DecidableEq

namespace ObjectKind

def number? : ObjectKind → Option Number
  | .block inside => some (.block inside.id)
  | .register inside => some (.register inside.id)
  | .memory _ | .immediate _ => none

namespace Keeps

variable {put taken put' taken' : List InstId}

lemma refl (kind : ObjectKind) : kind.Keeps [] [] kind := by
  cases kind with
  | block inside => exact .block (.of_code rfl rfl fun h => h)
  | _ => exact .operand rfl

lemma trans {between : ObjectKind} (h : old.Keeps put taken between) (h' : between.Keeps put' taken' kind) :
    old.Keeps (put ++ put') (taken ++ taken') kind := by
  cases h with
  | operand hop =>
    cases h' with
    | operand => exact .operand hop
    | block => cases hop
  | block h =>
    cases h' with
    | operand hop => cases hop
    | block h' => exact .block (h.trans h')

lemma of_unlinked (h : kind.unlinked = old.unlinked) : old.Keeps [] [] kind := by
  cases kind with
  | block later =>
    cases old with
    | block inside =>
      obtain ⟨hid, -, -, -, hslots, hflag⟩ := (Block.mk.injEq ..).mp (block.inj h)
      refine .block (.of_code hid (congrArg (filterMap _) hslots) fun hm hclean => ?_)
      rw [hslots]
      exact hm (hflag.symm.trans hclean)
    | _ => cases h
  | _ =>
    cases old with
    | block inside => cases h
    | _ => cases h <;> exact .operand rfl

lemma number?_eq (h : old.Keeps put taken kind) : kind.number? = old.number? := by
  cases h with
  | block h => rw [number?, h.id, number?]
  | operand => rfl

lemma block?_eq_none (h : old.Keeps put taken kind) (hop : old.block? = none) : kind = old := by
  cases h with
  | block => cases hop
  | operand => rfl

lemma immediate_iff (h : old.Keeps put taken kind) (operand : ImmediateOperand) :
    kind = .immediate operand ↔ old = .immediate operand := by
  cases h with
  | block => exact ⟨nofun, nofun⟩
  | operand => rfl

end Keeps

end ObjectKind

/-! ## Immediates -/

namespace Builder

/-- The object is a live immediate with this key. -/
def Interns (ir : Builder) (id : ObjectId) (key : ImmediateKey) : Prop :=
  ∃ operand, ir.kind? id = some (.immediate operand) ∧ operand.key = key

/-- The table holds the live immediates, each once. -/
structure Interned (ir : Builder) : Prop where
  mem : ∀ key id, (key, id) ∈ ir.immediates ↔ ir.Interns id key
  nodup : (ir.immediates.map Prod.fst).Nodup

lemma Interned.of_kinds (h : ir.Interned) (himms : later.immediates = ir.immediates)
    (hk : ∀ id operand, later.kind? id = some (.immediate operand) ↔ ir.kind? id = some (.immediate operand)) :
    later.Interned := by
  refine ⟨fun key id => ?_, himms ▸ h.nodup⟩
  rw [himms, h.mem]
  exact exists_congr fun operand => and_congr_left' (hk id operand).symm

/-! ## Builders -/

/-- The number was given. -/
def Counted (ir : Builder) : Number → Prop
  | .block number => number ≤ ir.blockCount
  | .register number => number ≤ ir.registerCount

def number? (ir : Builder) (id : ObjectId) : Option Number := (ir.kind? id).bind (·.number?)

/-- Numbers are given, and each to one object. -/
structure Numbered (ir : Builder) : Prop where
  counted : ∀ id number, ir.number? id = some number → ir.Counted number
  unique : ∀ a b number, ir.number? a = some number → ir.number? b = some number → a = b

end Builder

/-- The instructions that are entered for a block. -/
def filed (target : ObjectId) (entries : List (ObjectId × InstId)) : List InstId :=
  (entries.filter (·.1 = target)).map Prod.snd

lemma filed_append (id : ObjectId) (a b : List (ObjectId × InstId)) :
    filed id (a ++ b) = filed id a ++ filed id b := by
  rw [filed, filter_append, map_append, filed, filed]

lemma filed_map (id other : ObjectId) (insts : List InstId) :
    filed other (insts.map (id, ·)) = if other = id then insts else [] := by
  rw [filed, filter_map, map_map]
  split
  · rename_i heq
    simp [heq, Function.comp_def]
  · rename_i hne
    simp [Ne.symm hne, Function.comp_def]

namespace Builder

/-- What becomes of a builder: an object that is there was there before, or it
is the one that is made, and no number of it was given before. -/
structure Becomes (ir : Builder) (made? : Option ObjectId) (put taken : List (ObjectId × InstId))
    (later : Builder) : Prop where
  kinds : ∀ id kind, later.kind? id = some kind →
    (∃ old, ir.kind? id = some old ∧ old.Keeps (filed id put) (filed id taken) kind) ∨
    made? = some id ∧ ir.object? id = none ∧ (∀ number, kind.number? = some number → ¬ir.Counted number ∧
      later.Counted number) ∧ ∀ block, kind = .block block → block.Marked
  counted : ∀ number, ir.Counted number → later.Counted number
  interned : ir.Interned → later.Interned

namespace Becomes

variable {made? : Option ObjectId} {put taken put' taken' : List (ObjectId × InstId)}

/-- Nothing is made after. -/
lemma trans (h : ir.Becomes made? put taken mid) (h' : mid.Becomes none put' taken' later) :
    ir.Becomes made? (put ++ put') (taken ++ taken') later := by
  refine ⟨fun id kind hk => ?_, fun num hn => h'.counted num (h.counted num hn), fun hi =>
    h'.interned (h.interned hi)⟩
  obtain ⟨between, hbetween, hkeeps⟩ := (h'.kinds id kind hk).resolve_right fun hmade => by cases hmade.1
  rw [filed_append, filed_append]
  refine (h.kinds id between hbetween).imp ?_ ?_
  · rintro ⟨old, hold, hkeeps'⟩
    exact ⟨old, hold, hkeeps'.trans hkeeps⟩
  · rintro ⟨hmade, hfresh, hnum, hmarked⟩
    refine ⟨hmade, hfresh, fun num hn => ?_, fun block heq => ?_⟩
    · rw [hkeeps.number?_eq] at hn
      exact ⟨(hnum num hn).1, h'.counted num (hnum num hn).2⟩
    · subst heq
      cases hkeeps with
      | block hkeeps => exact hkeeps.marked (hmarked _ rfl)
      | operand hop => cases hop

lemma of_kinds (hk : ∀ id, later.kind? id = ir.kind? id) (himms : later.immediates = ir.immediates)
    (hcounted : ∀ number, ir.Counted number → later.Counted number) : ir.Becomes none [] [] later :=
  ⟨fun id kind hkind => .inl ⟨kind, hk id ▸ hkind, .refl kind⟩, hcounted, fun hi =>
    hi.of_kinds himms fun id _ => by rw [hk]⟩

lemma refl (ir : Builder) : ir.Becomes none [] [] ir := of_kinds (fun _ => rfl) rfl fun _ h => h

lemma setObject {f : Object → Object} {put taken : List InstId} (ho : ir.object? id = some obj)
    (hkeeps : obj.kind.Keeps put taken (f obj).kind) :
    ir.Becomes none (put.map (id, ·)) (taken.map (id, ·)) (ir.setObject id f) := by
  refine ⟨fun other kind hk => .inl ?_, fun _ h => h, fun hi => hi.of_kinds rfl fun other operand => ?_⟩
  · rw [kind?, object?_setObject ho] at hk
    rw [filed_map, filed_map]
    split at hk
    · rename_i heq
      cases hk
      exact ⟨obj.kind, heq ▸ kind?_of_object? ho, by rwa [if_pos heq, if_pos heq]⟩
    · rename_i hne
      exact ⟨kind, hk, by rw [if_neg hne, if_neg hne]; exact .refl kind⟩
  · rw [kind?, object?_setObject ho]
    split
    · rename_i heq
      rw [heq, kind?_of_object? ho, Option.map_some, Option.some.injEq, Option.some.injEq]
      exact hkeeps.immediate_iff operand
    · rfl

lemma kind?_erase (imms : List (ImmediateKey × ObjectId)) (id other : ObjectId) :
    ({ ir with objects := ir.objects.erase id, immediates := imms } : Builder).kind? other = if other = id
    then none else ir.kind? other := by
  rw [kind?, object?, Arena.get?_erase, apply_ite (Option.map Object.kind)]
  rfl

lemma free (hother : ∀ operand, ir.kind? id ≠ some (.immediate operand)) :
    ir.Becomes none [] [] { ir with objects := ir.objects.erase id } := by
  refine ⟨fun other kind hk => .inl ⟨kind, ?_, .refl kind⟩, fun _ h => h, fun hi =>
    hi.of_kinds rfl fun other operand => ?_⟩
  · rw [kind?_erase, Option.ite_none_left_eq_some] at hk
    exact hk.2
  · rw [kind?_erase, Option.ite_none_left_eq_some]
    exact ⟨And.right, fun hk => ⟨fun heq => hother operand (heq ▸ hk), hk⟩⟩

/-- An immediate is freed and leaves the table. -/
lemma forget (id : ObjectId) : ir.Becomes none [] []
      { ir with objects := ir.objects.erase id, immediates := ir.immediates.filter (·.2 ≠ id) } := by
  refine ⟨fun other kind hk => .inl ⟨kind, ?_, .refl kind⟩, fun _ h => h, fun hi =>
    ⟨fun key other => ?_, hi.nodup.sublist (filter_sublist.map _)⟩⟩
  · rw [kind?_erase, Option.ite_none_left_eq_some] at hk
    exact hk.2
  · rw [mem_filter, hi.mem, Interns, Interns]
    simp only [kind?_erase, Option.ite_none_left_eq_some, decide_eq_true_eq]
    exact ⟨fun ⟨⟨operand, hk, hkey⟩, hne⟩ => ⟨operand, ⟨hne, hk⟩, hkey⟩,
      fun ⟨operand, ⟨hne, hk⟩, hkey⟩ => ⟨⟨operand, hk, hkey⟩, hne⟩⟩

lemma clear (hobjs : later.objects = ir.objects.clear) (himms : later.immediates = [])
    (hcounted : ∀ number, ir.Counted number → later.Counted number) : ir.Becomes none [] [] later := by
  have hnone (id : ObjectId) : later.kind? id = none := by rw [kind?, object?, hobjs, get?_clear]; rfl
  refine ⟨fun id kind hk => ?_, hcounted, fun hi => ⟨fun key id => ?_, by rw [himms]; exact nodup_nil⟩⟩
  · rw [hnone] at hk
    cases hk
  · rw [himms, Interns, hnone]
    exact ⟨by rintro ⟨⟩, by rintro ⟨_, ⟨⟩, -⟩⟩

lemma of_unlinked (h : later.unlinked = ir.unlinked) : ir.Becomes none [] [] later := by
  have hregisters : later.unlinked.registerCount = ir.unlinked.registerCount := by rw [h]
  have hblocks : later.unlinked.blockCount = ir.unlinked.blockCount := by rw [h]
  have himms : later.unlinked.immediates = ir.unlinked.immediates := by rw [h]
  have hshape (id : ObjectId) : later.shape? id = ir.shape? id := by rw [← shape?_unlinked, h, shape?_unlinked]
  have hshown (ir : Builder) (id : ObjectId) (operand : ImmediateOperand) :
      ir.kind? id = some (.immediate operand) ↔ ir.shape? id = some (.immediate operand) := by
    rw [shape?]
    cases ir.kind? id with
    | none => exact Iff.rfl
    | some kind => cases kind <;> simp [ObjectKind.unlinked]
  refine ⟨fun id kind hk => .inl ?_, fun num hn => ?_, fun hi => hi.of_kinds himms fun id operand => ?_⟩
  · obtain ⟨old, hold, hsame⟩ := Option.map_eq_some_iff.mp ((hshape id).symm.trans (congrArg (Option.map _) hk))
    exact ⟨old, hold, .of_unlinked hsame.symm⟩
  · cases num with
    | block num => exact Nat.le_trans hn (Nat.le_of_eq hblocks.symm)
    | register num => exact Nat.le_trans hn (Nat.le_of_eq hregisters.symm)
  · rw [hshown, hshape, ← hshown]

lemma made (hfresh : ir.object? id = none) (hk : ∀ other, later.kind? other = if other = id then some kind
    else ir.kind? other) (hcounted : ∀ number, ir.Counted number → later.Counted number)
    (hnum : ∀ number, kind.number? = some number → ¬ir.Counted number ∧ later.Counted number)
    (hempty : ∀ block, kind = .block block → block.slots = []) (hinterned : ir.Interned → later.Interned) :
    ir.Becomes (some id) [] [] later := by
  refine ⟨fun other stored hkind => ?_, hcounted, hinterned⟩
  rw [hk] at hkind
  split at hkind
  · rename_i heq
    cases hkind
    refine .inr ⟨congrArg some heq.symm, heq ▸ hfresh, hnum, fun block hblock _ => ?_⟩
    rw [hempty block hblock]
    exact not_mem_nil
  · exact .inl ⟨stored, hkind, .refl stored⟩

end Becomes

section

variable {made? : Option ObjectId} {put taken : List (ObjectId × InstId)}

/-- An object has the number that it had, or it is the one that is made. -/
lemma Becomes.number? (h : ir.Becomes made? put taken later) {num : Number} (hn : later.number? id = some num) :
    ir.number? id = some num ∨ made? = some id ∧ ¬ir.Counted num ∧ later.Counted num := by
  obtain ⟨kind, hk, hnum⟩ := Option.bind_eq_some_iff.mp hn
  refine (h.kinds id kind hk).imp ?_ ?_
  · rintro ⟨old, hold, hkeeps⟩
    rwa [Builder.number?, hold, Option.bind_some, ← hkeeps.number?_eq]
  · rintro ⟨hmade, -, hnew, -⟩
    exact ⟨hmade, hnew num hnum⟩

lemma Numbered.becomes (h : ir.Numbered) (hb : ir.Becomes made? put taken later) : later.Numbered := by
  refine ⟨fun id num hn => ?_, fun a b num ha hb' => ?_⟩
  · rcases hb.number? hn with hold | ⟨-, -, hnew⟩
    · exact hb.counted num (h.counted id num hold)
    · exact hnew
  · rcases hb.number? ha with ha | ⟨ha, hnot, -⟩
    · rcases hb.number? hb' with hb' | ⟨-, hnot, -⟩
      · exact h.unique a b num ha hb'
      · exact absurd (h.counted a num ha) hnot
    · rcases hb.number? hb' with hb' | ⟨hb', -, -⟩
      · exact absurd (h.counted b num hb') hnot
      · exact Option.some.inj (ha.symm.trans hb')

lemma Marked.becomes (h : ir.Marked) (hb : ir.Becomes made? put taken later) : later.Marked := by
  intro id block hblock
  rcases hb.kinds id _ (kind?_of_block? hblock) with ⟨old, hold, hkeeps⟩ | ⟨-, -, -, hmarked⟩
  · cases hkeeps with
    | block hkeeps => exact hkeeps.marked (h id _ (block?_of_kind? hold))
    | operand hop => cases hop
  · exact hmarked block rfl

end

/-! ## Removal -/

/-- Objects and instructions are changed and removed, and none is made. -/
structure Fades (ir : Builder) (put taken : List (ObjectId × InstId)) (later : Builder) : Prop where
  objects : ir.objects.Fades later.objects
  instructions : ir.instructions.Fades later.instructions
  becomes : ir.Becomes none put taken later

namespace Fades

variable {put taken put' taken' : List (ObjectId × InstId)}

lemma refl (ir : Builder) : ir.Fades [] [] ir := ⟨.refl _, .refl _, .refl ir⟩

lemma trans (h : ir.Fades put taken mid) (h' : mid.Fades put' taken' later) : ir.Fades (put ++ put')
    (taken ++ taken') later :=
  ⟨h.objects.trans h'.objects, h.instructions.trans h'.instructions, h.becomes.trans h'.becomes⟩

lemma contains (h : ir.Fades put taken later) (hc : later.objects.contains id = true) :
    ir.objects.contains id = true := by
  obtain ⟨obj, ho⟩ := contains_iff.mp hc
  obtain ⟨old, hold, -⟩ := (h.becomes.kinds id obj.kind (kind?_of_object? ho)).resolve_right fun hmade =>
    by cases hmade.1
  obtain ⟨refs, hobj⟩ := object?_eq_of_kind? hold
  exact contains_iff.mpr ⟨_, hobj⟩

lemma of_unlinked (h : later.unlinked = ir.unlinked) : ir.Fades [] [] later := by
  have hobjs : later.objects.map Object.unlinked = ir.objects.map Object.unlinked := congrArg Builder.objects h
  have hinsts : later.unlinked.instructions = ir.unlinked.instructions := by rw [h]
  exact ⟨.of_map_eq hobjs, .of_eq hinsts, .of_unlinked h⟩

end Fades

end Builder

end Shading
