import Shading.Proofs.Ir.BlockList
import Shading.Proofs.Ir.Made

/-!
# Immediates

The table of a builder holds the live immediates, each under its key, so no two
of them have the same key (`Builder.Interned`).  Asking for an immediate gives
the one that there is, or a new one (`Builder.Serves`).
-/

namespace Shading

open List

variable {ir builder later : Builder} {id : ObjectId}

/-- The machine word and the base type make up a value. -/
lemma Value.eq_of_bits {a b : Value} (hbits : a.bits = b.bits) (hbase : a.base = b.base) : a = b := by
  cases a <;> cases b <;> try cases hbase
  case bool.bool a b =>
    revert hbits
    cases a <;> cases b <;> decide
  case int.int a b => exact congrArg (fun bits => Value.int (.ofUInt32 bits)) (UInt32.toUInt64_inj.mp hbits)
  case float.float a b => exact congrArg (fun bits => Value.float ⟨bits⟩) (UInt32.toUInt64_inj.mp hbits)
  case double.double a b => exact congrArg (fun bits => Value.double ⟨bits⟩) hbits

lemma ImmediateOperand.key_injective : Function.Injective key := by
  rintro ⟨value, registerClass, width, type?⟩ ⟨value', registerClass', width', type?'⟩ hkey
  obtain rfl : value = value' := Value.eq_of_bits (congrArg ImmediateKey.bits hkey)
    (congrArg ImmediateKey.base hkey)
  obtain ⟨-, -, rfl, rfl, rfl⟩ := (ImmediateKey.mk.injEq ..).mp hkey
  rfl

namespace Builder

/-- What asking for an immediate gives. -/
def Serves (ir : Builder) (operand : ImmediateOperand) (result : Except IrError ObjectId × Builder) : Prop :=
  (∀ id, ir.Interns id operand.key → result = (.ok id, ir)) ∧
  ((∀ id, ¬ir.Interns id operand.key) →
    (ir.objects.alloc ⟨.immediate operand, 0⟩ = none ∧ result = (.error .outOfMemory, ir)) ∨
    ∃ id later, result = (.ok id, later) ∧ ir.object? id = none ∧
    later.object? id = some ⟨.immediate operand, 0⟩ ∧
      ∀ other, other ≠ id → later.object? other = ir.object? other)

variable {slots : Nat} {limit? : Option Nat}

lemma Used.interned (h : Used slots limit? ir) : ir.Interned := by
  refine (h.invariant Interned ⟨fun key id => ?_, nodup_nil⟩ fun _ _ _ _ _ hi hb => hb.interned hi).2
  rw [Interns, kind?, object?]
  exact ⟨by rintro ⟨⟩, by rintro ⟨_, ⟨⟩, -⟩⟩

/-! ## Asking for an immediate -/

lemma Interned.serves (h : ir.Interned) (hw : ir.objects.WellFormed) (operand : ImmediateOperand) :
    ir.Serves operand ((Build.internImmediate operand).run.run ir) := by
  rw [Build.internImmediate, ExceptT.run_bind_of_ok (rfl : (get : Build Builder).run.run ir = (.ok ir, ir)),
    h.filter_lookup]
  refine ⟨fun id hshows => ?_, fun hmissing => ?_⟩
  · rw [(h.lookup_iff operand.key id).mpr hshows]
    rfl
  · cases hfound : ir.immediates.lookup operand.key with
    | some id => exact absurd ((h.lookup_iff operand.key id).mp hfound) (hmissing id)
    | none =>
      have hstores := Build.allocObject_stores hw (.immediate operand)
      have hrun := Build.allocObject_run (.immediate operand) ir
      cases halloc : ir.objects.alloc ⟨.immediate operand, 0⟩ with
      | none =>
        rw [halloc] at hrun
        exact .inl ⟨rfl, ExceptT.run_bind_of_error hrun⟩
      | some made =>
        rw [halloc] at hrun
        have hmade := hstores.ok hrun
        exact .inr ⟨made.1, _, ExceptT.run_bind_of_ok hrun, hmade.fresh, hmade.self, hmade.others⟩

/-- Immediates are interned: the table maps the key of each live immediate to
it, and whoever asks for a key gets the immediate that has it.  A new one is made
if none has, and as long as it lives it shows what was asked for.  Operands that
differ in anything have different keys. -/
theorem interned_of_used (h : Used slots limit? builder) : Function.Injective ImmediateOperand.key ∧
    (∀ key id, builder.immediates.lookup key = some id ↔ builder.Interns id key) ∧
    (∀ key id other, builder.Interns id key → builder.Interns other key → id = other) ∧
    (∀ value registerClass width, builder.Serves ⟨value, registerClass, UInt8.toNat width, none⟩
      ((Build.newImmediate value registerClass width).run.run builder)) ∧
    (∀ value type, builder.Serves ⟨value, (RegisterClass.ofType type).1, (RegisterClass.ofType type).2, some type⟩
      ((Build.newImmediateFor value type).run.run builder)) ∧
    ∀ (command : Command) (id : ObjectId) (operand : ImmediateOperand),
    builder.kind? id = some (.immediate operand) →
      (command.perform.run.run builder).2.objects.contains id = true →
        (command.perform.run.run builder).2.kind? id = some (.immediate operand) := by
  have hin := h.interned
  obtain ⟨order, hneat⟩ := h.neat
  refine ⟨ImmediateOperand.key_injective, hin.lookup_iff, fun key id other hid hother => ?_, fun _ _ _ =>
    hin.serves hneat.wellFormed _,
    fun _ _ => hin.serves hneat.wellFormed _, fun command id operand hk hlive => ?_⟩
  · rw [← hin.lookup_iff] at hid hother
    exact Option.some.inj (hid.symm.trans hother)
  · obtain ⟨obj, ho⟩ := contains_iff.mp hlive
    obtain ⟨refs, hold⟩ := object?_eq_of_kind? hk
    obtain ⟨made?, hbecomes⟩ := h.becomes command
    rcases hbecomes.kinds id obj.kind (kind?_of_object? ho) with ⟨old, hkind, hkeeps⟩ | ⟨-, hnone, -⟩
    · obtain rfl := Option.some.inj (hk.symm.trans hkind)
      rw [kind?_of_object? ho, hkeeps.block?_eq_none rfl]
    · rw [hnone] at hold
      cases hold

/-- A positive and a negative zero are two immediates, and asking again gives
the first one. -/
theorem interned_of_used_zeros : ∃ builder, Used 0 none builder ∧ builder.immediates.length = 2 ∧
    ((Build.newImmediate (.float .zero) .vector 4).run.run builder).1 = .ok ⟨0, 0⟩ := by
  have hcreated : Used 0 none _ := .create rfl
  have hpositive := hcreated.step (.operation (.newImmediate (.float .zero) .vector 4))
  have hnegative := hpositive.step (.operation (.newImmediate (.float ⟨0x80000000⟩) .vector 4))
  refine ⟨_, hnegative, by decide +kernel, ?_⟩
  have hserves := ((interned_of_used hnegative).2.2.2.1 (.float .zero) .vector 4).1 ⟨0, 0⟩ ⟨_, rfl, rfl⟩
  exact congrArg Prod.fst hserves

end Builder

end Shading
