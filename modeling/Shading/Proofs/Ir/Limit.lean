import Shading.Proofs.Ir.Made

/-!
# Limits on memory

A limit decides only whether there is room for one more entry.  So of two runs
of an operation under two limits, the one under the tighter limit is out of
memory or does just what the other does (`Build.Uniform`).  This is shown for
the two operations that allocate and passes on to all that are made of them.
-/

namespace Shading

/-- What is full under the second limit is full under the first. -/
def Tighter (tight? loose? : Option Nat) : Prop :=
  ∀ live, loose?.any (· ≤ live) = true → tight?.any (· ≤ live) = true

lemma tighter_none (tight? : Option Nat) : Tighter tight? none := by
  intro live h
  cases h

lemma tighter_of_le {tight loose : Nat} (h : tight ≤ loose) : Tighter (some tight) (some loose) := by
  intro live hfull
  simp only [Option.any_some, decide_eq_true_eq] at hfull ⊢
  omega

/-! ## Arenas -/

namespace Arena

variable {α : Type}

/-- An entry is stored under no limit. -/
def store (arena : Arena α) (value : α) : Option (Handle × Arena α) := (arena.under none).alloc value

lemma alloc_under (ar : Arena α) (lim? : Option Nat) (val : α) : (ar.under lim?).alloc val =
    if (ar.under lim?).isFull then none else (ar.store val).map fun res => (res.1, res.2.under lim?) := by
  unfold store alloc
  cases hfull : (ar.under lim?).isFull
  · have hnone : (ar.under none).isFull = false := rfl
    rw [hnone]
    cases ar with
    | mk slots free live limit allocated freed =>
      cases free with
      | cons index rest => rfl
      | nil =>
        change (if slots.size < maxSlots then _ else none) = Option.map _ (if slots.size < maxSlots
          then _ else none)
        split <;> rfl
  · rfl

lemma isFull_under (ar : Arena α) {tight? loose? : Option Nat} (h : Tighter tight? loose?)
    (hfull : (ar.under loose?).isFull = true) : (ar.under tight?).isFull = true := h ar.live hfull

lemma erase_under (ar : Arena α) (lim? : Option Nat) (handle : Handle) :
    (ar.under lim?).erase handle = (ar.erase handle).under lim? := by
  have hget : (ar.under lim?).get? handle = ar.get? handle := rfl
  unfold erase remove
  rw [hget]
  cases ar.get? handle <;> rfl

lemma modify_under (ar : Arena α) (lim? : Option Nat) (handle : Handle) (f : α → α) :
    (ar.under lim?).modify handle f = (ar.modify handle f).under lim? := by
  have hcont : (ar.under lim?).contains handle = ar.contains handle := rfl
  unfold modify
  rw [hcont]
  cases ar.contains handle <;> rfl

end Arena

/-! ## Operations -/

namespace Build

variable {α β : Type}

/-- Under the tighter of two limits an operation is out of memory, or it does
what it does under the other. -/
def Uniform (action : Build α) : Prop :=
  ∀ (tight? loose? : Option Nat) (ir : Builder), Tighter tight? loose? →
    (∃ later, action.run.run (ir.under tight?) = (.error .outOfMemory, later)) ∨
      ∃ result, ∃ later : Builder, action.run.run (ir.under tight?) = (result, later.under tight?) ∧
        action.run.run (ir.under loose?) = (result, later.under loose?)

namespace Uniform

lemma pure (a : α) : Uniform (Pure.pure a : Build α) := fun _ _ ir _ => .inr ⟨.ok a, ir, rfl, rfl⟩

lemma throw (error : IrError) : Uniform (MonadExcept.throw error : Build α) :=
  fun _ _ ir _ => .inr ⟨.error error, ir, rfl, rfl⟩

lemma bind {x : Build α} {f : α → Build β} (hx : Uniform x) (hf : ∀ a, Uniform (f a)) : Uniform (x >>= f) := by
  intro tight? loose? ir h
  rcases hx tight? loose? ir h with ⟨later, hout⟩ | ⟨res, later, htight, hloose⟩
  · exact .inl ⟨later, by rw [ExceptT.run_bind, StateT.run_bind, hout]; rfl⟩
  · cases res with
    | error error =>
      refine .inr ⟨.error error, later, ?_, ?_⟩
      · rw [ExceptT.run_bind, StateT.run_bind, htight]
        rfl
      · rw [ExceptT.run_bind, StateT.run_bind, hloose]
        rfl
    | ok a =>
      rw [ExceptT.run_bind, StateT.run_bind, StateT.run_bind, htight, hloose]
      exact hf a tight? loose? later h

/-- What is read from the state does not depend on the limit. -/
lemma read {f : Builder → Build β} (hf : ∀ ir, Uniform (f ir))
    (hsame : ∀ ir lim?, f (Builder.under ir lim?) = f ir) : Uniform (get >>= f) := by
  intro tight? loose? ir h
  have hrun (lim? : Option Nat) : (get >>= f : Build β).run.run (ir.under lim?) =
      (f ir).run.run (ir.under lim?) := by
    change (f (ir.under lim?)).run.run (ir.under lim?) = _
    rw [hsame]
  rw [hrun, hrun]
  exact hf ir tight? loose? ir h

lemma update {f : Builder → Builder} (hsame : ∀ ir lim?, f (Builder.under ir lim?) = (f ir).under lim?) :
    Uniform (modify f : Build Unit) :=
  fun _ _ ir _ => .inr ⟨.ok (), f ir, congrArg (Prod.mk _) (hsame ir _), congrArg (Prod.mk _) (hsame ir _)⟩

lemma allocObject (kind : ObjectKind) : Uniform (Build.allocObject kind) := by
  intro tight? loose? ir h
  have hrun (lim? : Option Nat) : (Build.allocObject kind).run.run (ir.under lim?) =
      stored (ir.under lim?) ((ir.objects.under lim?).alloc ⟨kind, 0⟩) := allocObject_run kind _
  rw [hrun, hrun, Arena.alloc_under, Arena.alloc_under]
  cases hfull : (ir.objects.under tight?).isFull with
  | true => exact .inl ⟨_, rfl⟩
  | false =>
    have hloose : (ir.objects.under loose?).isFull = false :=
      Bool.eq_false_iff.mpr fun hl => by simp [ir.objects.isFull_under h hl] at hfull
    rw [hloose]
    cases ir.objects.store ⟨kind, 0⟩ with
    | none => exact .inr ⟨.error .outOfMemory, ir, rfl, rfl⟩
    | some res => exact .inr ⟨.ok res.1, { ir with objects := res.2 }, rfl, rfl⟩

lemma allocInstruction (instr : Instruction) {next : InstId → Build β} (hnext : ∀ id, Uniform (next id)) :
    Uniform (withInstruction instr next) := by
  intro tight? loose? ir h
  have hrun (lim? : Option Nat) : (withInstruction instr next).run.run (ir.under lim?) =
      ((ir.instructions.under lim?).alloc instr).elim _ _ := withInstruction_run instr next _
  rw [hrun, hrun, Arena.alloc_under, Arena.alloc_under]
  cases hfull : (ir.instructions.under tight?).isFull with
  | true => exact .inl ⟨_, rfl⟩
  | false =>
    have hloose : (ir.instructions.under loose?).isFull = false :=
      Bool.eq_false_iff.mpr fun hl => by simp [ir.instructions.isFull_under h hl] at hfull
    rw [hloose]
    cases ir.instructions.store instr with
    | none => exact .inr ⟨.error .outOfMemory, ir, rfl, rfl⟩
    | some res => exact hnext res.1 tight? loose? { ir with instructions := res.2 } h

end Uniform

lemma Made.uniform {act : Build α} {n : Nat} (h : Made n act) : Uniform act := by
  induction h with
  | mono _ _ ih => exact ih
  | pure a => exact .pure a
  | throw _ => exact .throw _
  | bind _ _ hx hf => exact .bind hx hf
  | read _ hsame hf => exact .read hf hsame
  | links hf => exact .update fun ir lim? => (hf ir lim?).2.2
  | modifyObject id f =>
    refine .update fun ir lim? => ?_
    change ({ ir.under lim? with objects := (ir.objects.under lim?).modify id f } : Builder) = _
    rw [Arena.modify_under]
    rfl
  | freeObject id =>
    refine .update fun ir lim? => ?_
    change ({ ir.under lim? with objects := (ir.objects.under lim?).erase id } : Builder) = _
    rw [Arena.erase_under]
    rfl
  | freeInstruction id =>
    refine .update fun ir lim? => ?_
    change ({ ir.under lim? with instructions := (ir.instructions.under lim?).erase id } : Builder) = _
    rw [Arena.erase_under]
    rfl
  | allocObject kind => exact .allocObject kind
  | allocInstruction instr _ hnext => exact .allocInstruction instr hnext

end Build

end Shading
