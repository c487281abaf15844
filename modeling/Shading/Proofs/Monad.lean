import Mathlib.Tactic.Lemma

/-!
# Taking runs apart

A run of `x >>= f` that succeeds is a run of `x` that does and then one of `f`.
Stages here are of two kinds: those that lose their state with an error
(`StateT σ (Except ε)`) and those that keep it (`ExceptT ε (StateM σ)`).
-/

namespace Shading

/-! ## States that an error loses -/

section

variable {σ ε α β : Type} {s t : σ} {x : StateT σ (Except ε) α} {f : α → StateT σ (Except ε) β} {a : α} {b : β}
  {e : ε}

lemma StateT.run_bind_ok (h : (x >>= f).run s = .ok (b, t)) : ∃ a mid, x.run s = .ok (a, mid) ∧ (f a).run mid = .ok (b, t) := by
  rw [StateT.run_bind] at h
  cases hx : x.run s with
  | error e =>
    rw [hx] at h
    cases h
  | ok res =>
    rw [hx] at h
    exact ⟨res.1, res.2, rfl, h⟩

lemma StateT.run_pure_ok {b : α} (h : (pure a : StateT σ (Except ε) α).run s = .ok (b, t)) : b = a ∧ t = s := by
  cases h
  exact ⟨rfl, rfl⟩

lemma StateT.run_get_bind_ok {f : σ → StateT σ (Except ε) β}
    (h : (get >>= f).run s = .ok (b, t)) : (f s).run s = .ok (b, t) := h

lemma StateT.run_throw_ok (h : (throw e : StateT σ (Except ε) α).run s = .ok (a, t)) : False := by
  cases h

/-- A bind fails in its first or in its second part. -/
lemma StateT.run_bind_error (h : (x >>= f).run s = .error e) :
    x.run s = .error e ∨ ∃ a mid, x.run s = .ok (a, mid) ∧ (f a).run mid = .error e := by
  rw [StateT.run_bind] at h
  cases hx : x.run s with
  | error e' =>
    rw [hx] at h
    cases h
    exact .inl rfl
  | ok res =>
    rw [hx] at h
    exact .inr ⟨res.1, res.2, rfl, h⟩

end

/-! ## States that stay -/

section

variable {σ ε α β : Type} {s t : σ} {x : ExceptT ε (StateM σ) α} {f : α → ExceptT ε (StateM σ) β} {a : α} {b : β}

lemma ExceptT.run_bind_ok (h : (x >>= f).run.run s = (.ok b, t)) :
    ∃ a mid, x.run.run s = (.ok a, mid) ∧ (f a).run.run mid = (.ok b, t) := by
  rw [ExceptT.run_bind, StateT.run_bind] at h
  cases hx : x.run.run s with
  | mk res mid =>
    rw [hx] at h
    cases res with
    | error e => cases h
    | ok a => exact ⟨a, mid, rfl, h⟩

lemma ExceptT.run_bind_of_ok (h : x.run.run s = (.ok a, t)) : (x >>= f).run.run s = (f a).run.run t := by
  rw [ExceptT.run_bind, StateT.run_bind, h]
  rfl

lemma ExceptT.run_bind_of_error {e : ε} (h : x.run.run s = (.error e, t)) : (x >>= f).run.run s = (.error e, t) := by
  rw [ExceptT.run_bind, StateT.run_bind, h]
  rfl

lemma ExceptT.run_pure_ok {b : α} (h : (pure a : ExceptT ε (StateM σ) α).run.run s = (.ok b, t)) :
    b = a ∧ t = s := by
  cases h
  exact ⟨rfl, rfl⟩

lemma ExceptT.run_get_bind_ok {f : σ → ExceptT ε (StateM σ) β}
    (h : (get >>= f).run.run s = (.ok b, t)) : (f s).run.run s = (.ok b, t) := h

end

end Shading
