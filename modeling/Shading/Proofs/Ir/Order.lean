import Mathlib.Data.List.Nodup
import Shading.Ir.Builder
import Shading.Proofs.Ir.Arena
import Shading.Proofs.Monad

/-!
# The order of the blocks

`Build.Gives action builder post`: the action succeeds and leaves what `post`
says.  `Builder.Listed builder order`: the links of the blocks spell the list
`order`, forwards and backwards.  Linking and unlinking change the links and
nothing else (`Builder.unlinked`).
-/

namespace Shading

open List Option

variable {ir later : Builder} {id : ObjectId} {order : List ObjectId} {prev? : Option ObjectId}
  {mid : Builder} {obj : Object} {old : Block} {next? : Option ObjectId}
  {links : Option ObjectId × Option ObjectId} {after : List ObjectId}

/-! ## Actions that succeed -/

namespace Build

variable {α β : Type}

def Gives (action : Build α) (ir : Builder) (post : α → Builder → Prop) : Prop :=
  ∃ a later, action.run.run ir = (.ok a, later) ∧ post a later

namespace Gives

variable {x : Build α} {f : α → Build β} {post : β → Builder → Prop} {between : α → Builder → Prop}

lemma pure {a : α} (h : between a ir) : Gives (Pure.pure a) ir between := ⟨a, ir, rfl, h⟩

lemma bind (hx : Gives x ir between) (hf : ∀ a later, between a later → Gives (f a) later post) :
    Gives (x >>= f) ir post := by
  obtain ⟨a, later, hrun, hbetween⟩ := hx
  obtain ⟨b, last, hrun', hpost⟩ := hf a later hbetween
  exact ⟨b, last, (ExceptT.run_bind_of_ok hrun).trans hrun', hpost⟩

lemma step {a : α} (hx : x.run.run ir = (.ok a, mid)) (hf : Gives (f a) mid post) :
    Gives (x >>= f) ir post := by
  obtain ⟨b, last, hrun, hpost⟩ := hf
  exact ⟨b, last, (ExceptT.run_bind_of_ok hx).trans hrun, hpost⟩

lemma mono {other : α → Builder → Prop} (hx : Gives x ir between) (h : ∀ a later, between a later →
    other a later) : Gives x ir other := by
  obtain ⟨a, later, hrun, hbetween⟩ := hx
  exact ⟨a, later, hrun, h a later hbetween⟩

lemma of_run {a : α} (hx : x.run.run ir = (.ok a, later)) (h : between a later) :
    Gives x ir between := ⟨a, later, hx, h⟩

end Gives

/-- What an action leaves if it succeeds, and what if it fails. -/
def Ends (action : Build α) (ir : Builder) (good : α → Builder → Prop) (bad : IrError → Builder → Prop) :
    Prop :=
  match action.run.run ir with
  | (.ok a, later) => good a later
  | (.error error, later) => bad error later

namespace Ends

variable {x : Build α} {f : α → Build β} {between : α → Builder → Prop} {good : β → Builder → Prop}
  {bad bad' : IrError → Builder → Prop}

lemma of_gives (h : Gives x ir between) : Ends x ir between bad := by
  obtain ⟨a, later, hrun, hbetween⟩ := h
  rw [Ends, hrun]
  exact hbetween

lemma of_error {error : IrError} (hx : x.run.run ir = (.error error, later)) (h : bad error later) :
    Ends x ir between bad := by
  rw [Ends, hx]
  exact h

lemma mono {other : α → Builder → Prop} (h : Ends x ir between bad) (hgood : ∀ a later, between a later →
    other a later) (hbad : ∀ error later, bad error later → bad' error later) : Ends x ir other bad' := by
  unfold Ends at h ⊢
  split
  · rename_i a later hrun
    rw [hrun] at h
    exact hgood a later h
  · rename_i error later hrun
    rw [hrun] at h
    exact hbad error later h

lemma bind (h : Ends x ir between bad) (hf : ∀ a later, between a later → Ends (f a) later good bad) :
    Ends (x >>= f) ir good bad := by
  cases hx : x.run.run ir with
  | mk res later =>
    rw [Ends, hx] at h
    cases res with
    | ok a =>
      rw [Ends, ExceptT.run_bind_of_ok hx]
      exact hf a later h
    | error error => exact of_error (ExceptT.run_bind_of_error hx) h

lemma step {a : α} (hx : x.run.run ir = (.ok a, mid)) (hf : Ends (f a) mid good bad) :
    Ends (x >>= f) ir good bad := by
  rw [Ends, ExceptT.run_bind_of_ok hx]
  exact hf

lemma known (h : Ends x ir between bad) : Ends x ir (fun a later => x.run.run ir = (.ok a, later) ∧
    between a later) fun error later => x.run.run ir = (.error error, later) ∧ bad error later := by
  cases hx : x.run.run ir with
  | mk res later =>
    rw [Ends, hx] at h ⊢
    cases res <;> exact ⟨rfl, h⟩

lemma ok (h : Ends x ir between bad) {a : α} (hx : x.run.run ir = (.ok a, later)) : between a later := by
  rw [Ends, hx] at h
  exact h

end Ends

end Build

namespace Builder

lemma object?_eq_of_kind? {kind : ObjectKind} (h : ir.kind? id = some kind) :
    ∃ refs, ir.object? id = some ⟨kind, refs⟩ := by
  obtain ⟨⟨kind', refs⟩, hobj, rfl⟩ := map_eq_some_iff.mp h
  exact ⟨refs, hobj⟩

lemma kind?_of_block? {block : Block} (h : ir.block? id = some block) : ir.kind? id = some (.block block) := by
  obtain ⟨kind, hkind, hblk⟩ := bind_eq_some_iff.mp h
  rw [hkind]
  cases kind with
  | block inside => cases hblk; rfl
  | _ => cases hblk

lemma object?_of_block? {block : Block} (h : ir.block? id = some block) :
    ∃ refs, ir.object? id = some ⟨.block block, refs⟩ :=
  object?_eq_of_kind? (kind?_of_block? h)

lemma block?_of_kind? {block : Block} (h : ir.kind? id = some (.block block)) : ir.block? id = some block := by
  rw [block?, h]
  rfl

/-- The builder with another object in the place of one. -/
def setObject (ir : Builder) (id : ObjectId) (f : Object → Object) : Builder :=
  { ir with objects := ir.objects.modify id f }

/-- The builder with another block in the place of one. -/
def setBlock (ir : Builder) (id : ObjectId) (block : Block) : Builder :=
  ir.setObject id fun obj => { obj with kind := .block block }

lemma object?_setObject (h : ir.object? id = some obj) (f : Object → Object) (other : ObjectId) :
    (ir.setObject id f).object? other = if other = id then some (f obj) else ir.object? other := by
  split
  · rename_i heq
    rw [heq]
    exact Arena.get?_modify_self f h
  · rename_i hne
    exact Arena.get?_modify_of_ne f hne

lemma block?_setBlock (h : ir.block? id = some old) (block : Block) (other : ObjectId) :
    (ir.setBlock id block).block? other = if other = id then some block else ir.block? other := by
  obtain ⟨refs, hobj⟩ := object?_of_block? h
  rw [block?, kind?, setBlock, object?_setObject hobj]
  split <;> rfl

end Builder

namespace Build

lemma object_run (h : ir.object? id = some obj) : (Build.object id).run.run ir = (.ok obj, ir) := by
  rw [Build.object, ExceptT.run_bind_of_ok (rfl : (get : Build Builder).run.run ir = (.ok ir, ir)), h]
  rfl

lemma block_run {block : Block} (h : ir.block? id = some block) :
    (Build.block id).run.run ir = (.ok block, ir) := by
  obtain ⟨refs, hobj⟩ := Builder.object?_of_block? h
  exact ExceptT.run_bind_of_ok (object_run hobj)

lemma register_run {reg : Register} (h : ir.kind? id = some (.register reg)) :
    (Build.register id).run.run ir = (.ok reg, ir) := by
  obtain ⟨refs, hobj⟩ := Builder.object?_eq_of_kind? h
  exact ExceptT.run_bind_of_ok (object_run hobj)

lemma modifyObject_run (f : Object → Object) : (modifyObject id f).run.run ir = (.ok (), ir.setObject id f) := rfl

lemma modifyBlock_run {block : Block} (hb : ir.block? id = some block) (f : Block → Block) :
    (modifyBlock id f).run.run ir = (.ok (), ir.setBlock id (f block)) :=
  ExceptT.run_bind_of_ok (block_run hb)

end Build

/-! ## What is left without the links -/

def Block.unlinked (block : Block) : Block := { block with prev? := none, next? := none }

def ObjectKind.unlinked : ObjectKind → ObjectKind
  | .block inside => .block inside.unlinked
  | kind => kind

def Object.unlinked (obj : Object) : Object := { obj with kind := obj.kind.unlinked }

namespace Builder

/-- The builder without the links between its blocks. -/
def unlinked (ir : Builder) : Builder :=
  { ir with objects := ir.objects.map Object.unlinked, first? := none, last? := none }

lemma unlinked_setBlock {block : Block} (h : ir.block? id = some old)
    (hb : block.unlinked = old.unlinked) : (ir.setBlock id block).unlinked = ir.unlinked := by
  unfold setBlock setObject unlinked
  congr 1
  refine Arena.map_modify Object.unlinked fun obj hobj => ?_
  have hkind : ir.kind? id = some obj.kind := by
    rw [kind?, object?, hobj]
    rfl
  rw [kind?_of_block? h, some.injEq] at hkind
  rw [Object.unlinked, Object.unlinked, ← hkind]
  simp only [ObjectKind.unlinked, hb]

/-! ## Links -/

def links? (ir : Builder) (id : ObjectId) : Option (Option ObjectId × Option ObjectId) :=
  (ir.block? id).map fun block => (block.prev?, block.next?)

/-- The links of some blocks spell a piece of a list, which stands between
`prev?` and `next?`. -/
def Chained (ir : Builder) : (prev? : Option ObjectId) → List ObjectId → (next? : Option ObjectId) → Prop
  | _, [], _ => True
  | prev?, id :: rest, next? =>
    ir.links? id = some (prev?, rest.head?.or next?) ∧ ir.Chained (some id) rest next?

lemma chained_append {a b : List ObjectId} : ir.Chained prev? (a ++ b) next? ↔
      ir.Chained prev? a (b.head?.or next?) ∧ ir.Chained (a.getLast?.or prev?) b next? := by
  induction a generalizing prev? with
  | nil => simp [Chained]
  | cons id rest ih =>
    have hlast : (id :: rest).getLast?.or prev? = rest.getLast?.or (some id) := by
      rw [getLast?_cons]
      cases rest.getLast? <;> rfl
    rw [List.cons_append, Chained, Chained, ih, hlast, List.head?_append, Option.or_assoc, and_assoc]

lemma Chained.congr (h : ir.Chained prev? order next?) (hlinks : ∀ id ∈ order, later.links? id = ir.links? id) :
    later.Chained prev? order next? := by
  induction order generalizing prev? with
  | nil => trivial
  | cons id rest ih =>
    exact ⟨(hlinks id (.head _)).trans h.1, ih h.2 (forall_mem_cons.mp hlinks).2⟩

/-- The links of the blocks spell a list, forwards and backwards. -/
structure Listed (ir : Builder) (order : List ObjectId) : Prop where
  first : ir.first? = order.head?
  last : ir.last? = order.getLast?
  nodup : order.Nodup
  chained : ir.Chained none order none

lemma listed_empty (lim? : Option Nat) : (empty lim?).Listed [] := ⟨rfl, rfl, .nil, trivial⟩

/-- Only links and ends matter. -/
lemma Listed.congr (h : ir.Listed order)
    (hlinks : ∀ id ∈ order, later.links? id = ir.links? id) (hfirst : later.first? = ir.first?)
    (hlast : later.last? = ir.last?) : later.Listed order :=
  ⟨hfirst.trans h.first, hlast.trans h.last, h.nodup, h.chained.congr hlinks⟩

lemma Listed.block (h : ir.Listed order) (hm : id ∈ order) : ∃ block, ir.block? id = some block := by
  obtain ⟨pre, after, rfl⟩ := append_of_mem hm
  obtain ⟨block, hblk, -⟩ := map_eq_some_iff.mp (chained_append.mp h.chained).2.1
  exact ⟨block, hblk⟩

lemma blocksFrom_head? {bound : Nat} (h : ir.Chained prev? order none) (hbound : order.length ≤ bound) :
    ir.blocksFrom bound order.head? = order := by
  induction order generalizing prev? bound with
  | nil => cases bound <;> rfl
  | cons id rest ih =>
    obtain ⟨hid, hrest⟩ := h
    obtain ⟨block, hblk, hlinks⟩ := map_eq_some_iff.mp hid
    obtain ⟨bound, rfl⟩ : ∃ n, bound = n + 1 := ⟨bound - 1, by simp at hbound; omega⟩
    have hnext : block.next? = rest.head? := by
      rw [(Prod.mk.inj hlinks).2, or_none]
    rw [head?_cons, blocksFrom, hblk, bind_some, hnext, ih hrest (by simpa using hbound)]

/-- The list of blocks is what the links spell. -/
lemma Listed.blocks_eq (h : ir.Listed order) (hw : ir.objects.WellFormed) : ir.blocks = order := by
  have hsubset : order ⊆ ir.objects.entries.map Prod.fst := by
    intro id hm
    obtain ⟨block, hblk⟩ := h.block hm
    obtain ⟨refs, hobj⟩ := object?_of_block? hblk
    exact mem_map.mpr ⟨_, Arena.mem_entries.mpr hobj, rfl⟩
  have hlen := (subperm_of_subset h.nodup hsubset).length_le
  rw [length_map, ← hw.live] at hlen
  rw [blocks, h.first]
  exact blocksFrom_head? h.chained hlen

lemma links?_eq_some (h : ir.links? id = some links) : ∃ block, ir.block? id = some block ∧
    block.prev? = links.1 ∧ block.next? = links.2 := by
  obtain ⟨block, hblk, rfl⟩ := map_eq_some_iff.mp h
  exact ⟨block, hblk, rfl, rfl⟩

/-- The builder with other links of a block. -/
def setLinks (ir : Builder) (id : ObjectId) (prev? next? : Option ObjectId) : Builder :=
  match ir.block? id with
  | some block => ir.setBlock id { block with prev?, next? }
  | none => ir

section

variable (prev? next? : Option ObjectId)

lemma setLinks_eq {block : Block} (h : ir.block? id = some block) :
    ir.setLinks id prev? next? = ir.setBlock id { block with prev?, next? } := by
  rw [setLinks, h]

lemma unlinked_setLinks : (ir.setLinks id prev? next?).unlinked = ir.unlinked := by
  unfold setLinks
  split
  · rename_i block hblk
    exact unlinked_setBlock hblk rfl
  · rfl

@[simp] lemma first?_setLinks : (ir.setLinks id prev? next?).first? = ir.first? := by
  unfold setLinks
  split <;> rfl

@[simp] lemma last?_setLinks : (ir.setLinks id prev? next?).last? = ir.last? := by
  unfold setLinks
  split <;> rfl

lemma links?_setLinks (h : ir.links? id = some links) (other : ObjectId) :
    (ir.setLinks id prev? next?).links? other = if other = id then some (prev?, next?) else ir.links? other := by
  obtain ⟨block, hblk, -, -⟩ := links?_eq_some h
  rw [setLinks_eq prev? next? hblk, links?, block?_setBlock hblk]
  split <;> rfl

end

end Builder

/-! ## Linking -/

namespace Build

open Builder

variable {links : Option ObjectId × Option ObjectId}

lemma setLinks_run (h : ir.links? id = some links) (prev? next? : Option ObjectId) :
    (modifyBlock id fun block => { block with prev?, next? }).run.run ir =
      (.ok (), ir.setLinks id prev? next?) := by
  obtain ⟨block, hblk, -, -⟩ := links?_eq_some h
  rw [modifyBlock_run hblk, setLinks_eq prev? next? hblk]

lemma setNext_run (h : ir.links? id = some links) (next? : Option ObjectId) :
    (modifyBlock id fun block => { block with next? }).run.run ir = (.ok (), ir.setLinks id links.1 next?) := by
  obtain ⟨block, hblk, hprev, -⟩ := links?_eq_some h
  rw [modifyBlock_run hblk, setLinks_eq links.1 next? hblk, ← hprev]

lemma setPrev_run (h : ir.links? id = some links) (prev? : Option ObjectId) :
    (modifyBlock id fun block => { block with prev? }).run.run ir = (.ok (), ir.setLinks id prev? links.2) := by
  obtain ⟨block, hblk, -, hnext⟩ := links?_eq_some h
  rw [modifyBlock_run hblk, setLinks_eq prev? links.2 hblk, ← hnext]

/-- A block goes to the end of the list. -/
lemma linkLast_gives (h : ir.Listed order) (hb : ir.links? id = some links) (hid : id ∉ order) :
    Gives (linkLast id) ir fun _ later => later.Listed (order ++ [id]) ∧ later.unlinked = ir.unlinked := by
  have hlinks (prev? next? : Option ObjectId) := links?_setLinks prev? next? hb
  unfold linkLast
  refine .step rfl (.step (setLinks_run hb _ _) ?_)
  rcases eq_nil_or_concat order with rfl | ⟨init, previous, rfl⟩
  · have hlast : ir.last? = none := h.last
    rw [hlast]
    refine .step rfl (.of_run rfl ⟨⟨rfl, rfl, by simp, ?_, trivial⟩, unlinked_setLinks none none⟩)
    exact (hlinks none none id).trans (if_pos rfl)
  · rw [concat_eq_append] at *
    have hlast : ir.last? = some previous := by simp [h.last]
    obtain ⟨hinit, hprevious, -⟩ := chained_append.mp h.chained
    obtain ⟨-, -, hdisj⟩ := nodup_append'.mp h.nodup
    have hne : previous ≠ id := fun heq => hid (by simp [heq])
    have hprevious' : (ir.setLinks id (some previous) none).links? previous = some (init.getLast?, none) := by
      rw [hlinks, if_neg hne, hprevious]
      simp
    have hlinks' := links?_setLinks init.getLast? (some id) hprevious'
    rw [hlast]
    refine .step (setNext_run hprevious' _) (.of_run rfl ⟨⟨?_, ?_, ?_, ?_⟩, ?_⟩)
    · simp [h.first]
    · simp
    · rw [nodup_append_comm, singleton_append]
      exact nodup_cons.mpr ⟨hid, h.nodup⟩
    · refine chained_append.mpr ⟨chained_append.mpr ⟨hinit.congr fun other hm => ?_, ?_, trivial⟩, ?_, trivial⟩
      · refine (hlinks' other).trans ?_
        rw [if_neg fun heq => hdisj hm (by simp [heq]), hlinks, if_neg fun heq => hid (by simp [← heq, hm])]
      · refine (hlinks' previous).trans ?_
        simp
      · refine (hlinks' id).trans ?_
        rw [if_neg hne.symm, hlinks, if_pos rfl]
        simp
    · exact (unlinked_setLinks _ _).trans (unlinked_setLinks _ _)

lemma linkFirst_gives (h : ir.Listed order) (hb : ir.links? id = some links) (hid : id ∉ order) :
    Gives (linkFirst id) ir fun _ later => later.Listed (id :: order) ∧ later.unlinked = ir.unlinked := by
  have hlinks (prev? next? : Option ObjectId) := links?_setLinks prev? next? hb
  unfold linkFirst
  refine .step rfl (.step (setLinks_run hb _ _) ?_)
  cases order with
  | nil =>
    have hfirst : ir.first? = none := h.first
    rw [hfirst]
    refine .step rfl (.of_run rfl ⟨⟨rfl, rfl, by simp, ?_, trivial⟩, unlinked_setLinks none none⟩)
    exact (hlinks none none id).trans (if_pos rfl)
  | cons next rest =>
    have hfirst : ir.first? = some next := h.first
    obtain ⟨hnext, hrest⟩ := h.chained
    have hdisj := (nodup_cons.mp h.nodup).1
    have hne : next ≠ id := fun heq => hid (by simp [heq])
    have hnext' : (ir.setLinks id none (some next)).links? next = some (none, rest.head?.or none) := by
      rw [hlinks, if_neg hne, hnext]
    have hlinks' := links?_setLinks (some id) (rest.head?.or none) hnext'
    rw [hfirst]
    refine .step (setPrev_run hnext' _) (.of_run rfl ⟨⟨?_, ?_, ?_, ?_, ?_, ?_⟩, ?_⟩)
    · simp
    · simp [h.last, getLast?_cons]
    · exact nodup_cons.mpr ⟨hid, h.nodup⟩
    · refine (hlinks' id).trans ?_
      rw [if_neg hne.symm, hlinks, if_pos rfl]
      rfl
    · exact (hlinks' next).trans (if_pos rfl)
    · refine hrest.congr fun other hm => (hlinks' other).trans ?_
      rw [if_neg fun heq => hdisj (by rwa [← heq]), hlinks, if_neg fun heq => hid (by simp [← heq, hm])]
    · exact (unlinked_setLinks _ _).trans (unlinked_setLinks _ _)

/-- What comes after a removed block is linked to what came before it. -/
lemma relinkNext_gives (pre : List ObjectId) (hlast : after = [] ∨ ir.last? = after.getLast?)
    (hnodup : (pre ++ after).Nodup) (hfirst : ir.first? = (pre ++ after).head?)
    (hbefore : ir.Chained none pre after.head?) (hafter : ir.Chained (some id) after none) :
    Gives (match after.head? with
      | some next => modifyBlock next fun block => { block with prev? := pre.getLast? }
      | none => modify fun ir => { ir with last? := pre.getLast? }) ir fun _ later =>
        later.Listed (pre ++ after) ∧ later.unlinked = ir.unlinked := by
  cases after with
  | nil =>
    refine .of_run rfl ⟨⟨hfirst, ?_, hnodup, ?_⟩, rfl⟩
    · rw [append_nil]
    · rw [append_nil]
      exact hbefore.congr fun _ _ => rfl
  | cons next rest =>
    obtain ⟨hnext, hrest⟩ := hafter
    obtain ⟨-, hrestNodup, hdisj⟩ := nodup_append'.mp hnodup
    have hlinks := links?_setLinks pre.getLast? (rest.head?.or none) hnext
    refine .of_run (setPrev_run hnext _) ⟨⟨?_, ?_, hnodup, ?_⟩, unlinked_setLinks _ _⟩
    · rw [first?_setLinks, hfirst]
    · rw [last?_setLinks, hlast.resolve_left (cons_ne_nil next rest),
        getLast?_append_of_ne_nil _ (cons_ne_nil next rest)]
    · refine chained_append.mpr ⟨hbefore.congr fun other hm => ?_, ?_, hrest.congr fun other hm => ?_⟩
      · exact (hlinks other).trans (if_neg fun heq => hdisj hm (by simp [heq]))
      · refine (hlinks next).trans ?_
        simp
      · exact (hlinks other).trans (if_neg fun heq => (nodup_cons.mp hrestNodup).1 (by rwa [← heq]))

lemma unlink_gives {pre : List ObjectId} (h : ir.Listed (pre ++ id :: after)) :
    Gives (unlink id) ir fun _ later => later.Listed (pre ++ after) ∧ later.unlinked = ir.unlinked := by
  obtain ⟨hbefore, hid, hafter⟩ := chained_append.mp h.chained
  rw [or_none, or_none] at hid
  obtain ⟨block, hblk, hprev, hnext⟩ := links?_eq_some hid
  have hlinks := links?_setLinks none none hid
  have hnodup : (pre ++ after).Nodup := h.nodup.sublist ((sublist_cons_self id after).append_left pre)
  have hnot : id ∉ pre ++ after := (nodup_middle.mp h.nodup).notMem
  have hothers : ∀ other ∈ pre ++ after, (ir.setLinks id none none).links? other = ir.links? other :=
    fun other hm => (hlinks other).trans (if_neg fun heq => hnot (by rwa [← heq]))
  have hlast : after = [] ∨ ir.last? = after.getLast? := by
    cases after with
    | nil => exact .inl rfl
    | cons next rest => exact .inr (by simp [h.last, getLast?_append, getLast?_cons])
  have hafter' : (ir.setLinks id none none).Chained (some id) after none := by
    refine Chained.congr ?_ fun other hm => hothers other (mem_append_right _ hm)
    simpa using hafter
  unfold unlink
  refine .step (block_run hblk) (.step (setLinks_run hid none none) ?_)
  rw [hprev, hnext]
  rcases eq_nil_or_concat pre with rfl | ⟨init, previous, rfl⟩
  · refine .step rfl ?_
    have hgives : Gives _ { ir.setLinks id none none with first? := after.head? } _ :=
      relinkNext_gives [] (by simpa using hlast) hnodup rfl trivial (hafter'.congr fun _ _ => rfl)
    exact hgives.mono fun _ later hlater => ⟨hlater.1, hlater.2.trans (unlinked_setLinks none none)⟩
  · rw [concat_eq_append] at *
    obtain ⟨hinit, hprevious, -⟩ := chained_append.mp hbefore
    obtain ⟨hbeforeNodup, -, hdisj⟩ := nodup_append'.mp hnodup
    obtain ⟨-, -, hdisjoint'⟩ := nodup_append'.mp hbeforeNodup
    have hprevious' : (ir.setLinks id none none).links? previous = some (init.getLast?, some id) := by
      rw [hothers previous (by simp), hprevious]
      simp
    have hlinks' := links?_setLinks init.getLast? after.head? hprevious'
    rw [getLast?_append, getLast?_singleton, some_or]
    refine .step (setNext_run hprevious' _) ?_
    let mid := (ir.setLinks id none none).setLinks previous init.getLast? after.head?
    have hends : after = [] ∨ mid.last? = after.getLast? := by simpa [mid] using hlast
    have hfirst : mid.first? = (init ++ [previous] ++ after).head? := by simp [mid, h.first]
    have hbefore' : mid.Chained none (init ++ [previous]) after.head? := by
      refine chained_append.mpr ⟨hinit.congr fun other hm => (hlinks' other).trans ?_,
        (hlinks' previous).trans ?_, trivial⟩
      · rw [if_neg fun heq => hdisjoint' hm (by simp [heq]), hothers other (by simp [hm])]
      · simp
    have hafter'' : mid.Chained (some id) after none :=
      hafter'.congr fun other hm => (hlinks' other).trans (if_neg fun heq => hdisj (by simp [heq]) hm)
    have hgives := relinkNext_gives (init ++ [previous]) hends hnodup hfirst hbefore' hafter''
    rw [getLast?_append, getLast?_singleton, some_or] at hgives
    exact hgives.mono fun _ later hlater =>
      ⟨hlater.1, hlater.2.trans ((unlinked_setLinks _ _).trans (unlinked_setLinks none none))⟩

end Build

end Shading
