import Mathlib.Algebra.Group.Nat.Defs
import Mathlib.Algebra.Group.Int.Defs
import Shading.Fold

/-!
# Integer constants

Operators on integer constants compute in the integers and reduce the result to
32 bits (`fold_exactInt`).  Bits are those of two's complement: bit `i` of `n` is
the parity of `n / 2 ^ i`, rounded down.
-/

namespace Shading

/-- A bit of an integer in two's complement. -/
def bitOf (n : Int) (i : Nat) : Bool := n / 2 ^ i % 2 = 1

lemma bitOf_toInt (a : Int32) {i : Nat} (hi : i < 32) : bitOf a.toInt i = a.toBitVec.getLsbD i := by
  have hfloor : (a.toBitVec.sshiftRight i).toInt = a.toInt / 2 ^ i := by
    rw [BitVec.toInt_sshiftRight, Int.shiftRight_eq_div_pow]
    rfl
  have hshift : (a.toBitVec.sshiftRight i).getLsbD 0 = a.toBitVec.getLsbD i := by
    rw [BitVec.getLsbD_sshiftRight]
    simp [hi]
  -- The parity of a word does not depend on how its first bit is read.
  have hlt := (a.toBitVec.sshiftRight i).isLt
  rw [← hshift, bitOf, ← hfloor, BitVec.getLsbD, Nat.testBit_zero, BitVec.toInt_eq_toNat_cond]
  split <;> simp only [decide_eq_decide] <;> omega

/-! ## Shifts -/

/-- The count of a shift is taken modulo 32, also if it is negative. -/
lemma toNat_shiftCount (b : Int32) : (b.toBitVec.smod 32).toNat = (b.toInt % 32).toNat := by
  have hcount : (b.toBitVec.smod 32).toInt = b.toInt % 32 := by
    rw [BitVec.toInt_smod, ← Int.fmod_eq_emod_of_nonneg _ (by decide)]
    rfl
  have hlow := Int.emod_nonneg b.toInt (show (32 : Int) ≠ 0 by decide)
  have hhigh := Int.emod_lt_of_pos b.toInt (show (0 : Int) < 32 by decide)
  have hlt := (b.toBitVec.smod 32).isLt
  rw [BitVec.toInt_eq_toNat_cond] at hcount
  split at hcount <;> omega

lemma toInt_shiftLeft (a b : Int32) : (a <<< b).toInt = (a.toInt * 2 ^ (b.toInt % 32).toNat).bmod (2 ^ 32) := by
  change (a.toBitVec <<< (b.toBitVec.smod 32)).toInt = (a.toBitVec.toInt * _).bmod _
  rw [BitVec.shiftLeft_eq', BitVec.toInt_shiftLeft, toNat_shiftCount, BitVec.toInt_eq_toNat_bmod,
    Int.bmod_mul_bmod, Nat.shiftLeft_eq]
  simp

lemma toInt_shiftRight (a b : Int32) : (a >>> b).toInt = a.toInt / 2 ^ (b.toInt % 32).toNat := by
  change (a.toBitVec.sshiftRight' (b.toBitVec.smod 32)).toInt = _
  rw [BitVec.toInt_sshiftRight', toNat_shiftCount, Int.shiftRight_eq_div_pow]
  rfl

/-! ## Operators -/

/-- The result is the word that an integer is modulo `2 ^ 32`. -/
def GivesWord (result : Except FoldError Value) (n : Int) : Prop :=
  ∃ w : Int32, result = .ok (.int w) ∧ w.toInt = n.bmod (2 ^ 32)

/-- The result is the word whose bits are given. -/
def GivesBits (result : Except FoldError Value) (bits : Nat → Bool) : Prop :=
  ∃ w : Int32, result = .ok (.int w) ∧ ∀ i < 32, bitOf w.toInt i = bits i

/-- What operators give on the integers `a` and `b`. -/
structure ExactInt (a b : Int32) (binary : BinaryOp → Except FoldError Value)
    (unary : UnaryOp → Except FoldError Value) : Prop where
  add : GivesWord (binary .add) (a.toInt + b.toInt)
  sub : GivesWord (binary .sub) (a.toInt - b.toInt)
  mul : GivesWord (binary .mul) (a.toInt * b.toInt)
  quotient : b ≠ 0 → GivesWord (binary .div) (a.toInt.tdiv b.toInt)
  remainder : b ≠ 0 → GivesWord (binary .mod) (a.toInt.tmod b.toInt)
  division : b ≠ 0 → ∃ q r : Int32, binary .div = .ok (.int q) ∧ binary .mod = .ok (.int r) ∧
    (q.toInt * b.toInt + r.toInt).bmod (2 ^ 32) = a.toInt ∧ r.toInt.natAbs < b.toInt.natAbs ∧
    (0 ≤ a.toInt → 0 ≤ r.toInt) ∧ (a.toInt ≤ 0 → r.toInt ≤ 0)
  byZero : ∀ op, binary op = .error .divisionByZero ↔ (op = .div ∨ op = .mod) ∧ b = 0
  shiftLeft : GivesWord (binary .shiftLeft) (a.toInt * 2 ^ (b.toInt % 32).toNat)
  shiftRight : GivesWord (binary .shiftRight) (a.toInt / 2 ^ (b.toInt % 32).toNat)
  bitAnd : GivesBits (binary .bitAnd) fun i => bitOf a.toInt i && bitOf b.toInt i
  bitOr : GivesBits (binary .bitOr) fun i => bitOf a.toInt i || bitOf b.toInt i
  bitXor : GivesBits (binary .bitXor) fun i => bitOf a.toInt i ^^ bitOf b.toInt i
  complement : GivesBits (unary .complement) fun i => !bitOf a.toInt i
  eq : binary .eq = .ok (.bool (a.toInt = b.toInt))
  ne : binary .ne = .ok (.bool (a.toInt ≠ b.toInt))
  lt : binary .lt = .ok (.bool (a.toInt < b.toInt))
  le : binary .le = .ok (.bool (a.toInt ≤ b.toInt))
  gt : binary .gt = .ok (.bool (b.toInt < a.toInt))
  ge : binary .ge = .ok (.bool (b.toInt ≤ a.toInt))
  negate : GivesWord (unary .negate) (0 - a.toInt)

lemma fold_div {b : Int32} (h : b ≠ 0) (a : Int32) : BinaryOp.div.fold (.int a) (.int b) = .ok (.int (a / b)) :=
  if_neg h

lemma fold_mod {b : Int32} (h : b ≠ 0) (a : Int32) : BinaryOp.mod.fold (.int a) (.int b) = .ok (.int (a % b)) :=
  if_neg h

/-- Folding computes on 32 bits: sums, differences and products wrap around,
division rounds to zero and fails for a zero divisor, and shifts count modulo 32. -/
theorem fold_exactInt (a b : Int32) (type : ValueType) :
    ExactInt a b (fun op => op.fold (.int a) (.int b)) (fun op => op.fold (.int a) type) where
  add := ⟨_, rfl, Int32.toInt_add a b⟩
  sub := ⟨_, rfl, Int32.toInt_sub a b⟩
  mul := ⟨_, rfl, Int32.toInt_mul a b⟩
  quotient h := ⟨_, fold_div h a, Int32.toInt_div a b⟩
  remainder h := by
    refine ⟨_, fold_mod h a, ?_⟩
    rw [← Int32.toInt_mod]
    exact (Int32.toInt_bmod _).symm
  division h := by
    refine ⟨_, _, fold_div h a, fold_mod h a, ?_, ?_, ?_, ?_⟩ <;> rw [Int32.toInt_mod]
    · rw [Int32.toInt_div, ← Int.bmod_add_bmod, Int.bmod_mul_bmod, Int.bmod_add_bmod, Int.tdiv_mul_add_tmod]
      exact Int32.toInt_bmod a
    · rw [Int.natAbs_tmod]
      exact Nat.mod_lt _ (Int.natAbs_pos.mpr fun hz => h (Int32.toInt_inj.mp hz))
    · exact Int.tmod_nonneg b.toInt
    · intro ha
      have hneg := Int.tmod_nonneg b.toInt (Int.neg_nonneg_of_nonpos ha)
      rw [Int.neg_tmod] at hneg
      omega
  byZero op := by
    by_cases hb : b = 0 <;> cases op <;> simp [BinaryOp.fold, BinaryOp.foldInt, hb]
  shiftLeft := ⟨_, rfl, toInt_shiftLeft a b⟩
  shiftRight := by
    refine ⟨_, rfl, ?_⟩
    rw [← toInt_shiftRight]
    exact (Int32.toInt_bmod _).symm
  bitAnd := ⟨_, rfl, fun i hi => by simp [bitOf_toInt _ hi]⟩
  bitOr := ⟨_, rfl, fun i hi => by simp [bitOf_toInt _ hi]⟩
  bitXor := ⟨_, rfl, fun i hi => by simp [bitOf_toInt _ hi]⟩
  complement := by
    refine ⟨_, rfl, fun i hi => ?_⟩
    change bitOf (~~~a).toInt i = !bitOf a.toInt i
    rw [bitOf_toInt _ hi, bitOf_toInt _ hi, Int32.toBitVec_not, BitVec.getLsbD_not]
    simp [hi]
  eq := by simp [BinaryOp.fold, BinaryOp.foldInt, Int32.toInt_inj]
  ne := by simp [BinaryOp.fold, BinaryOp.foldInt, Int32.toInt_inj]
  lt := by simp [BinaryOp.fold, BinaryOp.foldInt, Int32.lt_iff_toInt_lt]
  le := by simp [BinaryOp.fold, BinaryOp.foldInt, Int32.le_iff_toInt_le]
  gt := by simp [BinaryOp.fold, BinaryOp.foldInt, Int32.lt_iff_toInt_lt]
  ge := by simp [BinaryOp.fold, BinaryOp.foldInt, Int32.le_iff_toInt_le]
  negate := by
    refine ⟨_, rfl, ?_⟩
    rw [Int32.toInt_neg, Int.zero_sub]

end Shading
