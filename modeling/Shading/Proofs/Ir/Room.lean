import Shading.Proofs.Ir.Arena
import Shading.Proofs.Ir.Made

/-!
# Room in builders

Without a limit there is room until the slots are used up, which are numbered
by 32 bits.  `Build.Takes` counts the slots that an operation adds at most, and
says that it is out of memory only under a limit or if so many slots are not
left.
-/

namespace Shading

namespace Arena

variable {α : Type} {ar later : Arena α}

lemma modify_size (ar : Arena α) (handle : Handle) (f : α → α) :
    (ar.modify handle f).slots.size = ar.slots.size ∧ (ar.modify handle f).limit? = ar.limit? := by
  unfold modify
  split
  · exact ⟨Array.size_modify, rfl⟩
  · exact ⟨rfl, rfl⟩

lemma erase_size (ar : Arena α) (handle : Handle) : (ar.erase handle).slots.size = ar.slots.size ∧
    (ar.erase handle).limit? = ar.limit? := by
  unfold erase remove
  split
  · exact ⟨Array.size_modify, rfl⟩
  · exact ⟨rfl, rfl⟩

end Arena

/-! ## Builders -/

namespace Builder

variable {ir mid later : Builder} {m n : Nat}

/-- Slots of both arenas. -/
def slotCount (ir : Builder) : Nat := ir.objects.slots.size + ir.instructions.slots.size

/-- Whether entries of an arena are limited. -/
def isLimited (ir : Builder) : Bool := ir.objects.limit?.isSome || ir.instructions.limit?.isSome

/-- At most so many slots are added, under the same limits. -/
structure Within (ir : Builder) (cost : Nat) (later : Builder) : Prop where
  slots : later.slotCount ≤ ir.slotCount + cost
  limited : later.isLimited = ir.isLimited

/-- The builder is limited, or has not so many slots left in each arena. -/
def Short (ir : Builder) (cost : Nat) : Prop := ir.isLimited = true ∨ Arena.maxSlots ≤ ir.slotCount + cost

lemma Within.refl (ir : Builder) (cost : Nat) : ir.Within cost ir := ⟨Nat.le_add_right _ _, rfl⟩

lemma Within.trans (h : ir.Within m mid) (h' : mid.Within n later) : ir.Within (m + n) later :=
  ⟨by have := h.slots; have := h'.slots; omega, h'.limited.trans h.limited⟩

lemma Within.mono (h : ir.Within m later) (hle : m ≤ n) : ir.Within n later :=
  ⟨by have := h.slots; omega, h.limited⟩

lemma Short.mono (h : ir.Short m) (hle : m ≤ n) : ir.Short n := h.imp_right fun hslots => by omega

lemma Within.short (h : ir.Within m mid) (hshort : mid.Short n) : ir.Short (m + n) := by
  have hslots := h.slots
  unfold Short at hshort ⊢
  rw [h.limited] at hshort
  exact hshort.imp_right fun hmid => by omega

lemma within_objects {objects : Arena Object} (hsize : objects.slots.size ≤ ir.objects.slots.size + n)
    (hlimit : objects.limit? = ir.objects.limit?) : ir.Within n { ir with objects } := by
  refine ⟨?_, ?_⟩
  · change objects.slots.size + ir.instructions.slots.size ≤ ir.objects.slots.size + ir.instructions.slots.size + n
    omega
  · change (objects.limit?.isSome || _) = _
    rw [hlimit]
    rfl

lemma within_instructions {instructions : Arena Instruction}
    (hsize : instructions.slots.size ≤ ir.instructions.slots.size + n)
    (hlimit : instructions.limit? = ir.instructions.limit?) : ir.Within n { ir with instructions } := by
  refine ⟨?_, ?_⟩
  · change ir.objects.slots.size + instructions.slots.size ≤ ir.objects.slots.size + ir.instructions.slots.size + n
    omega
  · change (_ || instructions.limit?.isSome) = _
    rw [hlimit]
    rfl

end Builder

/-! ## Operations -/

namespace Build

variable {α β : Type}

/-- The operation adds at most so many slots, and is out of memory only if
there is no room for them. -/
def Takes (cost : Nat) (action : Build α) : Prop :=
  ∀ ir, Builder.Within ir cost (action.run.run ir).2 ∧
    ((action.run.run ir).1 = .error .outOfMemory → ir.Short cost)

namespace Takes

variable {m n : Nat}

lemma mono {act : Build α} (h : Takes m act) (hle : m ≤ n) : Takes n act :=
  fun ir => ⟨(h ir).1.mono hle, fun hout => ((h ir).2 hout).mono hle⟩

lemma pure (a : α) : Takes n (Pure.pure a : Build α) := fun ir => ⟨.refl ir n, nofun⟩

lemma bind {x : Build α} {f : α → Build β} (hx : Takes m x) (hf : ∀ a, Takes n (f a)) :
    Takes (m + n) (x >>= f) := by
  intro ir
  obtain ⟨hsub, hout⟩ := hx ir
  rw [ExceptT.run_bind, StateT.run_bind]
  rcases hrun : x.run.run ir with ⟨err | a, mid⟩ <;> rw [hrun] at hsub hout
  · exact ⟨hsub.mono (Nat.le_add_right m n), fun h => (hout (by cases h; rfl)).mono (Nat.le_add_right m n)⟩
  · obtain ⟨hwithin', hout'⟩ := hf a mid
    exact ⟨hsub.trans hwithin', fun h => hsub.short (hout' h)⟩

lemma read {f : Builder → Build β} (hf : ∀ ir, Takes n (f ir)) : Takes n (get >>= f) := fun ir => hf ir ir

lemma update {f : Builder → Builder} (hf : ∀ ir, Builder.Within ir n (f ir)) : Takes n (modify f : Build Unit) :=
  fun ir => ⟨hf ir, nofun⟩

lemma allocObject (kind : ObjectKind) : Takes 1 (Build.allocObject kind) := by
  intro ir
  rw [allocObject_run]
  cases halloc : ir.objects.alloc ⟨kind, 0⟩ with
  | some res =>
    obtain ⟨hsize, hlimit⟩ := Arena.alloc_size halloc
    exact ⟨Builder.within_objects hsize hlimit, nofun⟩
  | none =>
    refine ⟨.refl ir 1, fun _ => (Arena.alloc_none halloc).imp (fun hlimit => ?_) fun hfull => ?_⟩
    · rw [Builder.isLimited, hlimit, Bool.true_or]
    · rw [Builder.slotCount]
      omega

lemma allocInstruction (instr : Instruction) {next : InstId → Build β} (hnext : ∀ id, Takes 0 (next id)) :
    Takes 1 (withInstruction instr next) := by
  intro ir
  rw [withInstruction_run]
  cases halloc : ir.instructions.alloc instr with
  | some res =>
    obtain ⟨hsize, hlimit⟩ := Arena.alloc_size halloc
    have hsub := Builder.within_instructions hsize hlimit
    obtain ⟨hrest, hout⟩ := hnext res.1 { ir with instructions := res.2 }
    exact ⟨hsub.trans hrest, fun h => hsub.short (hout h)⟩
  | none =>
    refine ⟨.refl ir 1, fun _ => (Arena.alloc_none halloc).imp (fun hlimit => ?_) fun hfull => ?_⟩
    · rw [Builder.isLimited, hlimit, Bool.or_true]
    · rw [Builder.slotCount]
      omega

end Takes

/-- Every operation takes only slots for the entries it stores. -/
lemma Made.takes {n : Nat} {act : Build α} (h : Made n act) : Takes n act := by
  induction h with
  | mono _ hle ih => exact ih.mono hle
  | pure a => exact .pure a
  | throw h => exact fun ir => ⟨.refl ir _, fun hout => absurd (Except.error.inj hout) h⟩
  | bind _ _ hx hf => exact .bind hx hf
  | read _ _ hf => exact .read hf
  | links hf =>
    refine .update fun ir => ?_
    obtain ⟨hobjs, hinsts, -⟩ := hf ir none
    refine ⟨?_, ?_⟩
    · rw [Builder.slotCount, hobjs, hinsts]
      exact Nat.le_add_right _ _
    · rw [Builder.isLimited, hobjs, hinsts]
      rfl
  | modifyObject id f =>
    refine .update fun ir => ?_
    obtain ⟨hsize, hlimit⟩ := ir.objects.modify_size id f
    exact (Builder.within_objects (n := 0) (Nat.le_of_eq hsize) hlimit).mono (Nat.zero_le _)
  | freeObject id =>
    refine .update fun ir => ?_
    obtain ⟨hsize, hlimit⟩ := ir.objects.erase_size id
    exact (Builder.within_objects (n := 0) (Nat.le_of_eq hsize) hlimit).mono (Nat.zero_le _)
  | freeInstruction id =>
    refine .update fun ir => ?_
    obtain ⟨hsize, hlimit⟩ := ir.instructions.erase_size id
    exact (Builder.within_instructions (n := 0) (Nat.le_of_eq hsize) hlimit).mono (Nat.zero_le _)
  | allocObject kind => exact .allocObject kind
  | allocInstruction instr _ hnext => exact .allocInstruction instr hnext

end Build

/-! ## New builders -/

lemma Builder.create_room (lim? : Option Nat) : match create 1 lim? with
    | .ok ir => ir.isLimited = lim?.isSome ∧ ir.slotCount ≤ 1
    | .error err => err = .outOfMemory → lim?.isSome = true := by
  have hall : Build.Made 1 ([()].forM fun _ => do
      let id ← Build.allocRegister .general pointerWidth
      Build.retain id
      modify fun ir => { ir with dataSlots := ir.dataSlots ++ [some id] }) :=
    .bind (n := 0) (.bind (n := 0) (.allocRegister _ _) fun id => .skip (.retain id) fun _ =>
      .links fun _ _ => ⟨rfl, rfl, rfl⟩) fun _ => .pure ()
  have hlimited : (empty lim?).isLimited = lim?.isSome := by cases lim? <;> rfl
  obtain ⟨hsub, hout⟩ := hall.takes (empty lim?)
  unfold create
  rw [if_neg (by decide)]
  dsimp only [List.replicate]
  split
  · rename_i hcreate
    split at hcreate
    · rename_i hrun
      cases hcreate
      rw [hrun] at hsub
      exact ⟨hsub.limited.trans hlimited, hsub.slots⟩
    · cases hcreate
  · rename_i hcreate
    split at hcreate
    · cases hcreate
    · rename_i hrun
      cases hcreate
      rw [hrun] at hout
      intro herror
      have hshort := hout (congrArg Except.error herror)
      rcases hshort with hlimit | hfull
      · exact hlimited ▸ hlimit
      · have hempty : (empty lim?).slotCount = 0 := rfl
        rw [hempty] at hfull
        exact absurd hfull (by decide)

end Shading
