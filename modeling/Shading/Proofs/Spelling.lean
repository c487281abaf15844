import Shading.Proofs.Tree.Typing

/-!
# Spellings of types

A text is read as a type if it is the name of the base type and, from two lanes
on, their number in decimal digits (`ValueType.ofText?_eq_some_iff`).  Zeros in
front do not change the number, so a type has more than one spelling
(`ValueType.ofText?_paddedLanes`).
-/

namespace Shading

open List

/-- Names of base types have no digits. -/
lemma Base.not_isDigit_of_mem_name (base : Base) : ∀ c ∈ base.name.toList, (!c.isDigit) = true := by
  rw [← all_eq_true]
  cases base <;> decide

namespace ValueType

/-- The digits behind the name of the base type. -/
def Counts (type : ValueType) (digits : List Char) : Prop :=
  if digits = [] then type.lanes = 1
  else 2 ≤ type.lanes ∧ (∀ c ∈ digits, c.isDigit = true) ∧ Nat.ofDigitChars 10 digits 0 = type.lanes

lemma digits?_eq_some_iff {digits : List Char} {n : Nat} :
    digits? digits = some n ↔ (∀ c ∈ digits, c.isDigit = true) ∧ Nat.ofDigitChars 10 digits 0 = n := by
  rw [digits?, Option.ite_none_right_eq_some, all_eq_true, Option.some.injEq, Nat.ofDigitChars_eq_foldl]

lemma spelling_of_ofText? {text : String} {type : ValueType} (h : ofText? text = some type) :
    type.Valid ∧ ∃ digits, text = type.base.name ++ String.ofList digits ∧ type.Counts digits := by
  unfold ofText? at h
  dsimp only at h
  split at h
  · cases h
  · rename_i base hbase
    have hfound := find?_some (show Base.all.find? (·.name == _) = some base from hbase)
    have htext : text = base.name ++ String.ofList (text.toList.dropWhile (!·.isDigit)) := by
      rw [← String.toList_inj, String.toList_append, String.toList_ofList, eq_of_beq hfound, String.toList_ofList]
      exact takeWhile_append_dropWhile.symm
    split at h
    · rename_i hnil
      cases h
      exact ⟨valid_scalar base, [], hnil ▸ htext, rfl⟩
    · rename_i hsome
      split at h
      · rename_i lanes hlanes
        obtain ⟨hrange, heq⟩ := Option.ite_none_right_eq_some.mp h
        cases heq
        simp only [Bool.and_eq_true, decide_eq_true_eq] at hrange
        obtain ⟨⟨htwo, hmax⟩, hvoid⟩ := hrange
        refine ⟨⟨Nat.le_of_succ_le htwo, hmax, fun h => absurd (of_decide_eq_true h) hvoid⟩, _, htext, ?_⟩
        rw [Counts, if_neg hsome]
        exact ⟨htwo, digits?_eq_some_iff.mp hlanes⟩
      · cases h

/-- What is read as a type.  Its own text is, if it is a type at all. -/
theorem ofText?_eq_some_iff (text : String) (type : ValueType) :
    (ofText? text = some type ↔ type.Valid ∧ ∃ digits, text = type.base.name ++ String.ofList digits ∧
      type.Counts digits) ∧ (ofText? type.text = some type ↔ type.Valid) := by
  refine ⟨⟨spelling_of_ofText?, ?_⟩, fun h => (spelling_of_ofText? h).1, fun hv => ?_⟩
  · rintro ⟨hv, digits, rfl, hcounts⟩
    have hname : Base.ofName? type.base.name = some type.base := by cases type.base <;> decide
    have hdigit := type.base.not_isDigit_of_mem_name
    unfold ofText? Counts at *
    dsimp only
    rw [String.toList_append, String.toList_ofList, takeWhile_append_of_pos hdigit, dropWhile_append_of_pos hdigit]
    cases digits with
    | nil =>
      have hscalar : scalar type.base = type := congrArg (ValueType.mk type.base) hcounts.symm
      simp [hname, hscalar]
    | cons c rest =>
      obtain ⟨htwo, hdigits, hnumber⟩ := hcounts
      have hvoid : type.base ≠ .void := fun h => by
        have := hv.2.2 (decide_eq_true h)
        omega
      simp [hdigits c (.head _), hname, digits?_eq_some_iff.mpr ⟨hdigits, hnumber⟩, htwo, hvoid, hv.2.1]
  · obtain ⟨base, lanes⟩ := type
    have hlanes : lanes = 1 ∨ lanes = 2 ∨ lanes = 3 ∨ lanes = 4 := by
      obtain ⟨hlow, hhigh : lanes ≤ 4, -⟩ := hv
      dsimp only at hlow
      omega
    rcases hlanes with rfl | rfl | rfl | rfl <;> cases base <;> revert hv <;> decide +kernel

/-- A second spelling of a type. -/
theorem ofText?_paddedLanes :
    ofText? "int02" = some ⟨.int, 2⟩ ∧ (⟨.int, 2⟩ : ValueType).text ≠ "int02" := by
  decide +kernel

end ValueType

end Shading
