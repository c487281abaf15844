import Shading.Proofs.Run.Frame
import Shading.Proofs.Run.Typing
import Shading.Proofs.Simplify.Typing

/-!
# Rules keep values

What a rule puts in the place of an operation has the value of the operation,
and what it makes known holds behind it (`Facts.Hold`).
-/

namespace Shading

/-! ## Neutral operands -/

namespace Value

variable {val : Value}

lemma eq_zero_of_isZero (hw : val.type.IsWord) (h : val.isZero = true) : val = .int 0 := by
  rcases hw with hint | hbool
  · obtain ⟨n, rfl⟩ := eq_int_of_type hint
    exact congrArg Value.int (of_decide_eq_true h)
  · obtain ⟨b, rfl⟩ := eq_bool_of_type hbool
    cases h

lemma eq_one_of_isOne (hw : val.type.IsWord) (h : val.isOne = true) : val = .int 1 := by
  rcases hw with hint | hbool
  · obtain ⟨n, rfl⟩ := eq_int_of_type hint
    exact congrArg Value.int (of_decide_eq_true h)
  · obtain ⟨b, rfl⟩ := eq_bool_of_type hbool
    cases h

lemma eq_zero_of_isPositiveZero (hw : val.type.IsWord) (h : val.isPositiveZero = true) : val = .int 0 := by
  refine eq_zero_of_isZero hw ?_
  rcases hw with hint | hbool
  · obtain ⟨n, rfl⟩ := eq_int_of_type hint
    exact h
  · obtain ⟨b, rfl⟩ := eq_bool_of_type hbool
    exact h

end Value

namespace BinaryOp

variable {op : BinaryOp} {type : ValueType} {a? b? : Option Value} {neutral : Int32} {p : Value → Bool}

/-- What is neutral for integers is neutral for all words of its type. -/
lemma neutral_of_int {fold : Value → Value → Except FoldError Value} {val? : Option Value}
    (hp : ∀ {val : Value}, val.type.IsWord → p val = true → val = .int neutral)
    (h : ∀ n, fold (.int n) (.int neutral) = .ok (.int n)) (hval : val?.any p = true) :
    ∃ val, val? = some val ∧ ∀ other : Value, other.type.IsWord → other.type = val.type →
      fold other val = .ok other := by
  obtain ⟨val, rfl, hval⟩ := (Option.any_eq_true _ _).mp hval
  refine ⟨val, rfl, fun other hw htype => ?_⟩
  obtain rfl := hp (htype ▸ hw) hval
  obtain ⟨n, rfl⟩ := Value.eq_int_of_type (htype.trans (Value.type_int _))
  exact h n

/-- An operation with a neutral right operand equals its left one. -/
lemma neutral_left (h : neutralSide? op type a? b? = some .left) :
    ∃ b, b? = some b ∧ ∀ a : Value, a.type.IsWord → a.type = b.type → op.fold a b = .ok a := by
  simp only [neutralSide?] at h
  split at h <;> simp only [ite_eq_iff, Bool.and_eq_true, Option.some.injEq, reduceCtorEq, and_false, or_false,
    and_true] at h
  · exact neutral_of_int Value.eq_zero_of_isZero (fun n => by rw [fold, foldInt, Int32.add_zero]) h.2
  · exact neutral_of_int Value.eq_zero_of_isZero (fun n => by rw [fold, foldInt, Int32.or_zero]) h.2
  · exact neutral_of_int Value.eq_zero_of_isZero (fun n => by rw [fold, foldInt, Int32.xor_zero]) h.2
  · exact neutral_of_int Value.eq_zero_of_isPositiveZero (fun n => by rw [fold, foldInt, Int32.sub_zero]) h
  · exact neutral_of_int Value.eq_one_of_isOne (fun n => by rw [fold, foldInt, Int32.mul_one]) h
  · exact neutral_of_int Value.eq_one_of_isOne
      (fun n => by rw [fold, foldInt, if_neg (by decide), Int32.div_one]) h
  · exact neutral_of_int Value.eq_zero_of_isZero (fun n => by rw [fold, foldInt, Int32.shiftLeft_zero]) h
  · exact neutral_of_int Value.eq_zero_of_isZero (fun n => by rw [fold, foldInt, Int32.shiftRight_zero]) h

/-- An operation with a neutral left operand equals its right one. -/
lemma neutral_right (h : neutralSide? op type a? b? = some .right) :
    ∃ a, a? = some a ∧ ∀ b : Value, b.type.IsWord → b.type = a.type → op.fold a b = .ok b := by
  simp only [neutralSide?] at h
  split at h <;> simp only [ite_eq_iff, Bool.and_eq_true, Option.some.injEq, reduceCtorEq, and_false, or_false,
    false_or, and_true] at h
  · exact neutral_of_int Value.eq_zero_of_isZero (fun n => by rw [fold, foldInt, Int32.zero_add]) h.2.2
  · exact neutral_of_int Value.eq_zero_of_isZero (fun n => by rw [fold, foldInt, Int32.zero_or]) h.2.2
  · exact neutral_of_int Value.eq_zero_of_isZero (fun n => by rw [fold, foldInt, Int32.zero_xor]) h.2.2
  · exact neutral_of_int Value.eq_one_of_isOne (fun n => by rw [fold, foldInt, Int32.one_mul]) h.2

end BinaryOp

/-! ## Operators that undo themselves -/

lemma UnaryOp.apply_apply {op : UnaryOp} {val : Value} {inner outer : ValueType} (h : op.isInvolution = true)
    (hw : val.type.IsWord) : op.apply (op.apply val inner) outer = val := by
  have hval : (∃ n, val = .int n) ∨ ∃ b, val = .bool b := hw.imp Value.eq_int_of_type Value.eq_bool_of_type
  rcases hval with ⟨n, rfl⟩ | ⟨b, rfl⟩ <;> cases op <;> simp_all [isInvolution, apply, fold, Except.toOption]

/-! ## Known values hold -/

/-- What is known of the locals in scope is true. -/
def Facts.Hold (table : SymbolTable) (scope : List SymbolId) (facts : Facts) (store : Store) : Prop :=
  ∀ sym ∈ scope, ∀ value, facts.lookup sym = some value → store.read table sym = value

namespace Facts.Hold

variable {env : SimplifyEnv} {tbl : SymbolTable} {Γ : List SymbolId} {facts : Facts} {σ : Store}

lemma nothing {loops : List LoopExits} {unreachable : Bool} : Hold tbl Γ ⟨[], loops, unreachable⟩ σ := by
  intro sym _ val h
  cases h

section

variable (h : facts.Hold tbl Γ σ)
include h

lemma fewer {after : Facts} (hf : facts.Fewer Γ after) : after.Hold tbl Γ σ :=
  fun sym hm val hl => h sym hm val (hf sym hm val hl)

lemma mono {less : List SymbolId} (hs : ∀ sym ∈ less, sym ∈ Γ) : facts.Hold tbl less σ :=
  fun sym hm => h sym (hs sym hm)

/-- What is known stays true where no known local is written. -/
lemma keeps {written : List SymbolId} {last : Store} (ht : facts.Typed tbl)
    (hk : σ.Keeps tbl written last) (hw : ∀ sym ∈ written, facts.lookup sym = none) :
    facts.Hold tbl Γ last := by
  intro sym hm val hl
  rw [hk.read_eq (ht sym val hl).1 fun hwritten => ?_]
  · exact h sym hm val hl
  · rw [hw sym hwritten] at hl
    cases hl

lemma forget (ht : facts.Typed tbl) (sym : SymbolId) (val : Value) :
    (facts.forget sym).Hold tbl Γ (σ.write tbl sym val) := by
  have hforget := h.fewer (Fewer.forget facts sym)
  refine hforget.keeps (ht.forget sym) (.write (List.mem_singleton_self sym) σ val) fun other hm => ?_
  obtain rfl := List.mem_singleton.mp hm
  rw [lookup_forget, if_pos rfl]

/-- A symbol of which nothing is known may come into scope. -/
lemma forget_mem {sym : SymbolId} : (facts.forget sym).Hold tbl (sym :: Γ) σ := by
  intro other hm val hl
  rw [lookup_forget] at hl
  split at hl
  · cases hl
  · exact h other ((List.mem_cons.mp hm).resolve_left ‹_›) val hl

end

lemma record {conditional : Bool} {sym : SymbolId} {val : Value} {value? : Option Value} {more : List SymbolId}
    (h : facts.Hold env.symbols Γ σ) (ht : facts.Typed env.symbols)
    (hw : (env.symbols.get sym).type.IsWord) (hv : val.type = (env.symbols.get sym).type)
    (hval : ∀ known ∈ value?, known = val) (hm : ∀ other ∈ more, other = sym ∨ other ∈ Γ) :
    (facts.record env conditional sym value?).Hold env.symbols more (σ.write env.symbols sym val) := by
  intro other hother known hl
  by_cases heq : other = sym
  · subst heq
    obtain ⟨hknown, -, hlocal⟩ := lookup_record_self hl
    rw [Store.read_write_self hlocal hw hv, hval known hknown]
  · rw [lookup_record_of_ne heq] at hl
    have hlocal := (ht other known hl).1
    rw [← h other ((hm other hother).resolve_left heq) known hl, Store.read_of_isLocal hlocal,
      Store.read_of_isLocal hlocal, Store.locals_write_of_ne heq]

end Facts.Hold

end Shading
