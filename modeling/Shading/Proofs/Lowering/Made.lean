import Shading.Proofs.Ir.Made
import Shading.Proofs.Lowering.Blocks

/-!
# What lowering is made of

Lowering runs operations of a builder, looks at its state and gives errors.
`Lower.Made` says so of an action in a state, with the spans that errors can
name and the number of entries that are stored at most.  Nothing is read that
depends on the limit of the builder.
-/

namespace Shading

open Lower

variable {st : LoweringState}

/-- The state whose builder has another limit. -/
def LoweringState.under (st : LoweringState) (limit? : Option Nat) : LoweringState :=
  { st with builder := st.builder.under limit? }

namespace Lower

/-- In the state, the action is made of operations of the builder, changes of
the state and errors at allowed spans, and stores at most so many entries. -/
inductive Made (allowed : Span → Prop) : {α : Type} → Nat → Lower α → LoweringState → Prop
  | mono {α : Type} {x : Lower α} {m n : Nat} {st : LoweringState} (h : Made allowed m x st) (hle : m ≤ n) :
      Made allowed n x st
  | pure {α : Type} (a : α) {n : Nat} {st : LoweringState} : Made allowed n (Pure.pure a : Lower α) st
  | throw {α : Type} {error : LoweringError} {n : Nat} {st : LoweringState} (h : error ≠ .ir .outOfMemory)
      (hspan : ∀ span ∈ error.span?, allowed span) : Made allowed n (MonadExcept.throw error : Lower α) st
  | bind {α β : Type} {x : Lower α} {f : α → Lower β} {m n : Nat} {st : LoweringState} (hx : Made allowed m x st)
      (hf : ∀ a later, x.run st = .ok (a, later) → Made allowed n (f a) later) : Made allowed (n + m) (x >>= f) st
  | read {β : Type} {f : LoweringState → Lower β} {n : Nat} {st : LoweringState} (hf : Made allowed n (f st) st)
      (hsame : ∀ limit?, f (st.under limit?) = f st) : Made allowed n (get >>= f) st
  | update {f : LoweringState → LoweringState} {n : Nat} {st : LoweringState}
      (hbuilder : (f st).builder = st.builder)
      (hsame : ∀ limit?, f (st.under limit?) = (f st).under limit?) : Made allowed n (modify f : Lower Unit) st
  | build {α : Type} {action : Build α} {n : Nat} {st : LoweringState} (h : Build.Made n action) :
      Made allowed n (build action) st

namespace Made

variable {α β : Type} {m n : Nat} {ok : Span → Prop} {bad : LoweringError → Prop}

/-- What comes next is made so in the states that are left. -/
lemma bindEnds {x : Lower α} {f : α → Lower β} {between : α → LoweringState → Prop}
    {good : β → LoweringState → Prop} (hx : Made ok m x st ∧ Ends x st between bad)
    (hf : ∀ a later, between a later → Made ok n (f a) later ∧ Ends (f a) later good bad) :
    Made ok (n + m) (x >>= f) st ∧ Ends (x >>= f) st good bad := by
  refine ⟨bind hx.1 fun a later hrun => (hf a later ?_).1, hx.2.bind fun a later hbetween =>
    (hf a later hbetween).2⟩
  have hends := hx.2
  rw [Ends, hrun] at hends
  exact hends

lemma openBlock : Made ok 1 openBlock st := by
  refine read ?_ fun _ => rfl
  split
  · exact bind (build .newBlock) fun id _ _ => bind (m := 0) (update rfl fun _ => rfl) fun _ _ _ => pure id
  · exact read (pure _) fun _ => rfl

lemma inBlock {act : ObjectId → Build α} (h : ∀ block, Build.Made 1 (act block)) : Made ok 2 (do
    let block ← Lower.openBlock
    let _ ← Lower.build (act block)) st :=
  bind openBlock fun block _ _ => bind (build (h block)) fun _ _ _ => pure ()

lemma jumpIfOpen (tgt : ObjectId) : Made ok 2 (jumpIfOpen tgt) st := by
  refine read ?_ fun _ => rfl
  split
  · exact bind (n := 0) (inBlock fun _ => .emit _ _ _) fun _ _ _ => update rfl fun _ => rfl
  · exact pure ()

lemma enter (block : ObjectId) : Made ok 2 (enter block) st := by
  refine bind (build (.moveToEnd block)) fun _ _ _ => bind (n := 0) (jumpIfOpen block) fun _ _ _ =>
    read ?_ fun _ => rfl
  split
  · exact bind (build (.deleteObject block)) fun _ _ _ => pure false
  · exact bind (m := 0) (update rfl fun _ => rfl) fun _ _ _ => pure true

end Made

end Lower

end Shading
