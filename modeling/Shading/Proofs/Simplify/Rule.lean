import Shading.Proofs.Parse.Expression
import Shading.Proofs.Parse.Symbols
import Shading.Proofs.Simplify.Visits
import Shading.Proofs.Tree.Words

/-!
# Types of what the rules give

A rule replaces an operation by something of the same type, and checked
arguments have the types of the parameters.
-/

namespace Shading

open List Option

variable {type : ValueType} {args types : List ValueType} {f : Intrinsic} {sym : Symbol} {res : Value}

namespace ValueType

lemma lanes_eq_one (hv : type.Valid) (h : type.isVector = false) : type.lanes = 1 := by
  have h₁ := hv.1
  simp only [isVector, decide_eq_false_iff_not] at h
  omega

end ValueType

lemma stepped?_type {op : UnaryOp} {val updated : Value} (h : stepped? op val = some updated) :
    updated.type = val.type := by
  rw [stepped?] at h
  cases val <;> simp only [Value.base, Value.one?] at h <;>
    first | cases h | (split at h <;> cases h <;> rfl)

lemma UnaryOp.type_of_evaluate? {op : UnaryOp} {val : Value} (hv : type.Valid)
    (ht : op.Takes val.type type) (h : op.evaluate? (some val) type = some res) : res.type = type := by
  rw [evaluate?, bind_some] at h
  cases hop : op with
  | cast =>
    subst hop
    rw [fold] at h
    split at h
    · cases h
    · rename_i hvector
      split at h
      · rename_i cast hcast
        cases h
        exact Value.type_cast hcast (ValueType.lanes_eq_one hv (Bool.not_eq_true _ ▸ hvector))
      · cases h
  | _ =>
    subst hop
    obtain ⟨-, rfl⟩ := ht
    cases val <;> first | (cases h; done) | (cases h; rfl)

lemma BinaryOp.type_of_fold {op : BinaryOp} {a b : Value} (hab : a.type = b.type)
    (ht : op.Takes a.type type) (h : op.fold a b = .ok res) : res.type = type := by
  rw [Takes] at ht
  cases a <;> cases b <;> rw [fold] at h <;> try cases h
  all_goals
    cases op <;> simp only [operatorClass, foldInt, foldFloat, foldDouble, foldBool] at ht h <;>
      first
        | (cases h; done)
        | (split at h <;> cases h; first | exact ht.symm | exact ht.2.symm | exact ht.2.2.symm)
        | (cases h; first | exact ht.symm | exact ht.2.symm | exact ht.2.2.symm)

/-- Where nothing is folded, operations stay. -/
lemma BinaryOp.keep_or_fold {op : BinaryOp} {fold : Bool} {left right : Operand} {reduction : Reduction}
    (h : op.reduction fold type left right = .ok reduction) : reduction = .keep ∨ fold = true := by
  cases fold with
  | true => exact .inr rfl
  | false =>
    rw [BinaryOp.reduction] at h
    split at h <;> cases h
    exact .inl rfl

lemma BinaryOp.reduction_cases {op : BinaryOp} {fold : Bool} {left right : Operand}
    {reduction : Reduction} (h : op.reduction fold type left right = .ok reduction) :
    reduction = .keep ∨ (∃ a b val, left.value? = some a ∧ right.value? = some b ∧ op.fold a b = .ok val ∧
        reduction = .literal val) ∨
      (neutralSide? op type left.value? right.value? = some .left ∧ left.type = type ∧
        reduction = .operand .left) ∨
      neutralSide? op type left.value? right.value? = some .right ∧ right.type = type ∧
        reduction = .operand .right := by
  unfold BinaryOp.reduction at h
  split at h
  · cases h
  · split at h
    · cases h
      exact .inl rfl
    · split at h
      · rename_i a b ha hb
        split at h
        · cases h
          exact .inr (.inl ⟨a, b, _, ha, hb, ‹_›, rfl⟩)
        · cases h
        · cases h
          exact .inl rfl
      · cases h
        unfold dropNeutral
        split
        · split
          · exact .inr (.inr (.inl ⟨‹_›, ‹_›, rfl⟩))
          · exact .inl rfl
        · split
          · exact .inr (.inr (.inr ⟨‹_›, ‹_›, rfl⟩))
          · exact .inl rfl
        · exact .inl rfl

/-- A logical operation becomes a truth value or one of its operands. -/
lemma logicalReduction_cases (op : BinaryOp) (a? b? : Option Bool) (pureLeft : Bool) :
    let reduction := logicalReduction op a? b? pureLeft
    reduction = .keep ∨ (∃ b, reduction = .literal (.bool b)) ∨ ∃ side, reduction = .operand side := by
  unfold logicalReduction
  grind

/-! ## Calls -/

namespace Intrinsic

lemma commonType_replicate (h : type.base.isNumeric = true) (n : Nat) :
    commonType (replicate (n + 1) type) = some type := by
  rw [replicate_succ, commonType]
  induction n with
  | zero => rfl
  | succ n ih =>
    rw [replicate_succ, foldlM_cons]
    have hpromote : type.promote type = some type := by
      rw [ValueType.promote, if_neg (by simp)]
      obtain ⟨rank, hrank⟩ := isSome_iff_exists.mp h
      simp [hrank]
    rw [hpromote]
    exact ih

lemma length_of_resolve (h : f.resolve types = some type) : types.length = f.arity := by
  unfold resolve at h
  split at h
  · cases h
  · rename_i hlen
    exact Decidable.of_not_not hlen

lemma base_of_resolve (h : f.resolve types = some type) :
    type.base.isFloating = true ∨ type.base = .int ∧ f.acceptsIntegers = true := by
  unfold resolve at h
  split at h
  · cases h
  · split at h
    · cases h
    · rename_i common hcommon
      split at h <;> rename_i hbase
      · cases h
        exact .inl (by rw [hbase]; rfl)
      · cases h
        exact .inl (by rw [hbase]; rfl)
      · cases h
        split
        · exact .inr ⟨hbase, ‹_›⟩
        · exact .inl rfl
      · cases h
      · cases h

/-- Arguments of the type a call resolves to resolve to it again. -/
lemma resolve_map_const (h : f.resolve types = some type) : f.resolve (types.map fun _ => type) = some type := by
  have hlen := length_of_resolve h
  have hbase := base_of_resolve h
  have hnumeric : type.base.isNumeric = true := by
    rcases hbase with hbase | ⟨hbase, -⟩
    · cases hb : type.base <;> simp_all [Base.isFloating] <;> rfl
    · rw [hbase]
      rfl
  obtain ⟨n, hn⟩ : ∃ n, types.length = n + 1 := by
    rw [hlen]
    cases f <;> exact ⟨_, rfl⟩
  have hmap : (types.map fun _ => type) = replicate (n + 1) type := by
    rw [map_const', hn]
  rw [hmap, resolve, if_neg (by rw [length_replicate, ← hn, hlen]; simp), commonType_replicate hnumeric]
  rcases hbase with hbase | ⟨hbase, haccepts⟩
  · cases hb : type.base <;> simp_all [Base.isFloating]
  · simp [hbase, haccepts]

lemma type_of_evaluate {values : List Value}
    (hv : ∀ val ∈ values, val.type = type) (h : f.evaluate values = some res) : res.type = type := by
  unfold evaluate at h
  split at h <;>
    first
      | cases h
      | (obtain ⟨inner, -, rfl⟩ := map_eq_some_iff.mp h
         have hfirst := hv _ (.head _)
         exact hfirst)

end Intrinsic

/-- Arguments pass if there are as many as parameters and their types go
together. -/
lemma parameterTypes_eq_ok : parameterTypes sym args = .ok types ↔
    (∃ signature, sym.kind = .function signature ∧ signature.parameters.length = args.length ∧
      types = signature.parameters) ∨
    ∃ f type, sym.kind = .intrinsic f ∧ f.arity = args.length ∧ f.resolve args = some type ∧
      types = args.map fun _ => type := by
  unfold parameterTypes
  constructor
  · intro h
    split at h
    · rename_i signature hkind
      split at h
      · rename_i hlen
        exact .inl ⟨signature, hkind, hlen, (Except.ok.inj h).symm⟩
      · cases h
    · rename_i f hkind
      split at h
      · cases h
      · rename_i hlen
        split at h
        · rename_i type hres
          exact .inr ⟨f, type, hkind, not_not.mp hlen, hres, (Except.ok.inj h).symm⟩
        · cases h
    · cases h
  · rintro (⟨signature, hkind, hlen, rfl⟩ | ⟨f, type, hkind, hlen, hres, rfl⟩)
    · simp [hkind, hlen]
    · simp [hkind, hlen, hres]

section

variable (h : parameterTypes sym args = .ok types)
include h

/-- Arguments that have been converted need no other conversion. -/
lemma parameterTypes_parameterTypes : parameterTypes sym types = .ok types := by
  rcases parameterTypes_eq_ok.mp h with ⟨signature, hkind, -, rfl⟩ | ⟨f, type, hkind, hlen, hres, rfl⟩
  · exact parameterTypes_eq_ok.mpr (.inl ⟨signature, hkind, rfl, rfl⟩)
  · exact parameterTypes_eq_ok.mpr (.inr ⟨f, type, hkind, by rw [hlen, length_map],
      Intrinsic.resolve_map_const hres, by simp⟩)

lemma length_of_parameterTypes : types.length = args.length := by
  rcases parameterTypes_eq_ok.mp h with ⟨signature, -, hlen, rfl⟩ | ⟨f, type, -, -, -, rfl⟩
  · exact hlen
  · exact length_map ..

/-- The type of a call stays when its arguments are converted. -/
lemma callType?_of_parameterTypes (hc : Parser.callType? sym args = some type) :
    checkedCallType sym args type = type ∧ Parser.callType? sym types = some type := by
  unfold Parser.callType? at hc ⊢
  unfold checkedCallType
  rcases parameterTypes_eq_ok.mp h with ⟨signature, hkind, -, rfl⟩ | ⟨f, common, hkind, -, hres, rfl⟩ <;>
    rw [hkind] at hc ⊢
  · exact ⟨rfl, hc⟩
  · cases hc
    simp only [hres, getD_some, Intrinsic.resolve_map_const hres, and_self]

/-- Parameters of a call over words are words. -/
lemma isWord_of_parameterTypes (hw : ∀ type ∈ sym.signatureTypes, type.IsWord)
    (htype : type.IsWord ∨ type = .void) (hc : Parser.callType? sym args = some type) :
    ∀ type ∈ types, type.IsWord := by
  rcases parameterTypes_eq_ok.mp h with ⟨signature, hkind, -, rfl⟩ | ⟨f, common, hkind, -, hres, rfl⟩
  · rwa [Symbol.signatureTypes, hkind] at hw
  · rw [Parser.callType?, hkind] at hc
    obtain rfl : (f.resolve args).getD .void = type := some.inj hc
    rw [hres, getD_some] at htype
    intro type hm
    obtain ⟨_, -, rfl⟩ := mem_map.mp hm
    refine htype.resolve_right fun hvoid => ?_
    rcases Intrinsic.base_of_resolve hres with hbase | ⟨hbase, -⟩ <;> rw [hvoid] at hbase <;> cases hbase

end

lemma valid_of_parameterTypes {tbl : SymbolTable} (hs : tbl.WellFormed) {callee : SymbolId}
    (hv : ∀ type ∈ args, type.Valid)
    (h : parameterTypes (tbl.get callee) args = .ok types) : ∀ type ∈ types, type.Valid := by
  rcases parameterTypes_eq_ok.mp h with ⟨signature, hkind, -, rfl⟩ | ⟨f, common, -, -, hres, rfl⟩
  · have hbound : callee.index < tbl.size := by
      by_contra hbound
      rw [SymbolTable.Extends.get_of_size_le (Nat.le_of_not_lt hbound)] at hkind
      cases hkind
    have hwell := hs.symbol callee hbound
    rw [Symbol.WellFormed, hkind] at hwell
    exact fun type hm => (hwell.2.2 type hm).1
  · intro type hm
    obtain ⟨_, -, rfl⟩ := mem_map.mp hm
    exact Intrinsic.valid_resolve hv hres

end Shading
