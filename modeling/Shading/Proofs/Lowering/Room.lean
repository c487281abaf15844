import Shading.Proofs.Ir.Room
import Shading.Proofs.Lowering.Invariant

/-!
# Room for code

Lowering adds at most 24 slots for each node.  So without a limit it is out of
memory only if the body has so many nodes that slots cannot be numbered any more
(`Program.limited_of_lower`).
-/

namespace Shading

namespace Lower

variable {α β : Type} {m n : Nat} {st : LoweringState}

/-- The action adds at most so many slots, and is out of memory only if there
is no room for them. -/
def Takes (cost : Nat) (action : Lower α) (st : LoweringState) : Prop :=
  match action.run st with
  | .ok (_, later) => st.builder.Within cost later.builder
  | .error error => error = .ir .outOfMemory → st.builder.Short cost

namespace Takes

lemma mono {act : Lower α} (h : Takes m act st) (hle : m ≤ n) : Takes n act st := by
  unfold Takes at h ⊢
  cases hrun : act.run st <;> rw [hrun] at h
  · exact fun herror => (h herror).mono hle
  · exact h.mono hle

lemma bind {x : Lower α} {f : α → Lower β} (hx : Takes m x st)
    (hf : ∀ a later, x.run st = .ok (a, later) → Takes n (f a) later) : Takes (n + m) (x >>= f) st := by
  rw [Nat.add_comm]
  unfold Takes at hx ⊢
  rw [StateT.run_bind]
  cases hrun : x.run st with
  | error error =>
    rw [hrun] at hx
    exact fun herror => (hx herror).mono (Nat.le_add_right m n)
  | ok res =>
    have hsecond := hf res.1 res.2 hrun
    rw [hrun] at hx
    unfold Takes at hsecond
    change match (f res.1).run res.2 with
      | .ok (_, later) => st.builder.Within (m + n) later.builder
      | .error error => error = .ir .outOfMemory → st.builder.Short (m + n)
    cases hrun : (f res.1).run res.2 <;> rw [hrun] at hsecond
    · exact fun herror => hx.short (hsecond herror)
    · exact hx.trans hsecond

lemma build {act : Build α} (haction : act.Takes n) : Takes n (Lower.build act) st := by
  obtain ⟨hsub, hout⟩ := haction st.builder
  rw [Takes, build_run]
  rcases hrun : act.run.run st.builder with ⟨error | a, later⟩ <;> rw [hrun] at hsub hout
  · exact fun herror => hout (congrArg Except.error (LoweringError.ir.inj herror))
  · exact hsub

end Takes

lemma Made.takes {may : Span → Prop} {act : Lower α} (h : Made may n act st) : Takes n act st := by
  induction h with
  | mono _ hle ih => exact ih.mono hle
  | @pure _ a n st => exact (.refl st.builder n : st.builder.Within n st.builder)
  | throw h _ => exact fun herror => absurd herror h
  | bind _ _ hx hf => exact .bind hx hf
  | read _ _ hf => exact hf
  | @update f n st hbuilder _ =>
    change st.builder.Within n (f st).builder
    rw [hbuilder]
    exact .refl _ n
  | build h => exact .build h.takes

end Lower

namespace Program

/-- Lowering is out of memory only under a limit, or if the nodes of the entry
function are too many for slots that are numbered by 32 bits. -/
lemma limited_of_lower {prog : Program} {lim? : Option Nat} (h : prog.lower lim? = .error (.ir .outOfMemory)) :
    lim?.isSome = true ∨ ∃ fn body, prog.entryFunction? = some (fn, [], body) ∧
      Arena.maxSlots ≤ 24 * body.size + 4 := by
  have hlow := lowering_of_error h
  rcases prog.lowering_cases with ⟨-, hrun⟩ | ⟨_, _, _, _, -, hrun⟩ | ⟨fn, body, hmain, hrun⟩ <;>
    rw [hrun] at hlow
  · cases hlow
  · cases hlow
  have hcreate := Builder.create_room lim?
  unfold LoweringState.start at hlow
  cases hmade : Builder.create 1 lim? with
  | error error =>
    rw [hmade] at hlow hcreate
    exact .inl (hcreate (LoweringError.ir.inj (Except.error.inj hlow)))
  | ok ir =>
    rw [hmade] at hlow hcreate
    obtain ⟨hlimited, hslots⟩ := hcreate
    suffices hshort : ir.Short (24 * body.size + 3) by
      rcases hshort with hlimit | hfull
      · exact .inl (hlimited ▸ hlimit)
      · exact .inr ⟨fn, body, hmain, by omega⟩
    obtain ⟨hsub, hout⟩ := Build.Made.initEntry.takes ir
    dsimp only at hlow
    rcases hentry : Build.initEntry.run.run ir with ⟨error | entry, started⟩ <;> rw [hentry] at hlow hsub hout
    · obtain rfl : error = .outOfMemory := LoweringError.ir.inj (Except.error.inj hlow)
      exact (hout rfl).mono (by omega)
    · dsimp only at hlow
      cases hslot : started.dataSlot? 0 with
      | none =>
        rw [hslot] at hlow
        cases hlow
      | some base =>
        rw [hslot] at hlow
        have hstart : LoweringState.start lim? = .ok ⟨started, base, entry, false, [], []⟩ := by
          rw [LoweringState.start, hmade]
          dsimp only
          rw [hentry]
          dsimp only
          rw [hslot]
        have hbody := (Lower.entryBody_moves prog.symbols body.spanned_true
          (LoweringState.waits_of_start hstart)).1.takes
        unfold Lower.Takes at hbody
        cases hlower : (Lower.entryBody prog.symbols body).run ⟨started, base, entry, false, [], []⟩ with
        | ok res =>
          rw [lowerBody, hlower] at hlow
          cases hlow
        | error error =>
          rw [lowerBody, hlower] at hlow
          rw [hlower] at hbody
          have hshort := hsub.short (hbody (Except.error.inj hlow))
          exact hshort.mono (by omega)

end Program

end Shading
