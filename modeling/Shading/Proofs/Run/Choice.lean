import Mathlib.Data.List.Forall2
import Shading.Proofs.Run.Frame

/-!
# Branches with the same parts

`Meaning.pick` is the arm that a branch takes; arms with the same conditions
are taken in the same places.
-/

namespace Shading

namespace Meaning

/-! ## Branches -/

/-- The first arm whose condition holds, and the store in which it is entered. -/
def pick {α : Type} : List (Option Evaluator × α) → Store → Option α × Store
  | [], store => (none, store)
  | (none, arm) :: _, store => (some arm, store)
  | (some cond, arm) :: rest, store =>
    let (value, store) := cond store
    if value.isTrue then (some arm, store) else pick rest store

/-- Runs the arm that was taken, if there is one. -/
def enter (taken : Option Runner × Store) : (rounds : Nat) → Option (Completion × Store) := fun rounds =>
  match taken with
  | (some run, store) => run rounds store
  | (none, store) => some (.normal, store)

lemma choose_eq_enter (arms : List (Option Evaluator × Runner)) (k : Nat) (σ : Store) :
    choose arms k σ = enter (pick arms σ) k := by
  induction arms generalizing σ with
  | nil => rfl
  | cons arm rest ih =>
    obtain ⟨cond?, body⟩ := arm
    cases cond? with
    | none => rfl
    | some cond =>
      rw [choose, pick]
      dsimp only
      split
      · rfl
      · exact ih _

lemma pick_map {α β : Type} (f : α → β) (arms : List (Option Evaluator × α)) (σ : Store) :
    pick (arms.map fun arm => (arm.1, f arm.2)) σ = ((pick arms σ).1.map f, (pick arms σ).2) := by
  induction arms generalizing σ with
  | nil => rfl
  | cons arm rest ih =>
    obtain ⟨cond?, body⟩ := arm
    cases cond? with
    | none => rfl
    | some cond =>
      rw [List.map_cons, pick, pick]
      dsimp only
      split
      · rfl
      · exact ih _

/-- Arms with the same conditions are taken in the same places. -/
lemma pick_forall₂ {α β : Type} {r : α → β → Prop} {as : List (Option Evaluator × α)}
    {bs : List (Option Evaluator × β)} (h : List.Forall₂ (fun a b => a.1 = b.1 ∧ r a.2 b.2) as bs) (σ : Store) :
    Option.Rel r (pick as σ).1 (pick bs σ).1 ∧ (pick as σ).2 = (pick bs σ).2 := by
  induction h generalizing σ with
  | nil => exact ⟨.none, rfl⟩
  | @cons a b as bs hfirst hrest ih =>
    obtain ⟨cond?, x⟩ := a
    obtain ⟨other?, y⟩ := b
    obtain ⟨rfl, hxy⟩ : cond? = other? ∧ r x y := hfirst
    cases cond? with
    | none => exact ⟨.some hxy, rfl⟩
    | some cond =>
      rw [pick, pick]
      dsimp only
      split
      · exact ⟨.some hxy, rfl⟩
      · exact ih _

end Meaning

namespace Node

variable {interp : Interpretation} {table : SymbolTable} {lbl : Label}

section

variable (interp table)

/-- The condition and the body of an arm. -/
def armParts? (node : Node) : Option (Option Evaluator × Node) :=
  match node.form with
  | .arm cond? body => some (cond?.map (·.value interp table), body)
  | _ => none

/-- The arm a branch takes. -/
def taken (arms : List Node) (store : Store) : Option Node × Store :=
  Meaning.pick (arms.filterMap (·.armParts? interp table)) store

end

@[simp] lemma armParts?_arm (cond? : Option Node) (body : Node) :
    (mk lbl (.arm cond? body)).armParts? interp table = some (cond?.map (·.value interp table), body) := rfl

lemma taken_cons (cond body : Node) (rest : List Node) (σ : Store) :
    taken interp table (mk lbl (.arm (some cond) body) :: rest) σ =
      if (cond.value interp table σ).1.isTrue then
        (some body, (cond.value interp table σ).2)
      else taken interp table rest (cond.value interp table σ).2 := by
  rw [taken, List.filterMap_cons_some (armParts?_arm _ _)]
  rfl

lemma armMeaning?_eq (node : Node) : node.armMeaning? interp table =
    (node.armParts? interp table).map fun arm => (arm.1, arm.2.run interp table) := by
  obtain ⟨lbl, form⟩ := node
  cases form with
  | arm cond? body => rw [armMeaning?_arm, armParts?_arm, Option.map_some]
  | _ =>
    rw [armMeaning?, meaning_mk]
    rfl

lemma run_branch_eq (arms : List Node) (k : Nat) (σ : Store) : (mk lbl (.branch arms)).run interp table k σ =
      Meaning.enter ((taken interp table arms σ).1.map (·.run interp table),
        (taken interp table arms σ).2) k := by
  have harms : arms.filterMap (·.armMeaning? interp table) =
      (arms.filterMap (·.armParts? interp table)).map fun arm =>
        (arm.1, arm.2.run interp table) := by
    rw [List.map_filterMap]
    exact List.filterMap_congr fun arm _ => armMeaning?_eq arm
  rw [run_branch, Meaning.choose_eq_enter, harms, Meaning.pick_map]
  rfl

end Node

namespace Meaning

/-! ## Loops -/

lemma test_congr {cond? other? : Option Evaluator} {σ : Store}
    (h : values cond?.toList σ = values other?.toList σ) : test cond? σ = test other? σ := by
  cases cond? <;> cases other? <;> simp_all [values, test]

end Meaning

end Shading
