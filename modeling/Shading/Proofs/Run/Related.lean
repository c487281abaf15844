import Shading.Proofs.Run.Tree
import Shading.Proofs.Tree.Uses

/-!
# Runs in related stores

Two meanings are alike for a relation between stores if, in related stores, they
give the same values, end in the same way and lead to related stores
(`Meaning.Alike`).  Nodes of the same form with children that are alike are so
themselves (`Meaning.Alike.ofForm`), if what the nodes themselves read, write and
call respects the relation.
-/

namespace Shading

open Form

/-! ## Alike -/

section

variable (r : Store → Store → Prop)

/-- The same value, and related stores behind it. -/
def EvaluatesAlike (value other : Evaluator) : Prop :=
  ∀ ⦃a b⦄, r a b → (value a).1 = (other b).1 ∧ r (value a).2 (other b).2

/-- The same way to end, in related stores, or both need more rounds. -/
def EndsAlike : Option (Completion × Store) → Option (Completion × Store) → Prop :=
  Option.Rel fun x y => x.1 = y.1 ∧ r x.2 y.2

def RunsAlike (run other : Runner) : Prop := ∀ ⦃rounds a b⦄, r a b → EndsAlike r (run rounds a) (other rounds b)

structure Meaning.Alike (meaning other : Meaning) : Prop where
  value : EvaluatesAlike r meaning.value other.value
  run : RunsAlike r meaning.run other.run
  arm : Option.Rel (fun a b => Option.Rel (EvaluatesAlike r) a.1 b.1 ∧ RunsAlike r a.2 b.2) meaning.arm? other.arm?

end

/-- Runs from the same store, which has a property that they keep. -/
lemma EndsAlike.eq {p : Store → Prop} {res result' : Option (Completion × Store)}
    (h : EndsAlike (fun a b => a = b ∧ p a) res result') :
    res = result' ∧ ∀ {completion last}, result' = some (completion, last) → p last := by
  cases h with
  | none => exact ⟨rfl, nofun⟩
  | @some x y h =>
    obtain ⟨hcompletion, hlast, hp⟩ := h
    obtain rfl : x = y := Prod.ext hcompletion hlast
    refine ⟨rfl, ?_⟩
    rintro _ _ ⟨⟩
    exact hp

/-- What is alike in equal stores is the same. -/
lemma Meaning.Alike.eq {meaning other : Meaning} (h : Meaning.Alike Eq meaning other) : meaning = other := by
  have hval {val other : Evaluator} (h : EvaluatesAlike Eq val other) : val = other :=
    funext fun σ => Prod.ext (h rfl).1 (h rfl).2
  have hrun {run other : Runner} (h : RunsAlike Eq run other) : run = other := by
    funext k σ
    have hends := @h k σ σ rfl
    generalize run k σ = res, other k σ = result' at hends
    cases hends with
    | none => rfl
    | some h => exact congrArg some (Prod.ext h.1 h.2)
  obtain ⟨val, run, arm?⟩ := meaning
  obtain ⟨value', run', arm'?⟩ := other
  obtain ⟨hv, hr, ha⟩ := h
  obtain rfl : val = value' := hval hv
  obtain rfl : run = run' := hrun hr
  congr
  cases ha with
  | none => rfl
  | @some arm arm' ha =>
    obtain ⟨cond?, body⟩ := arm
    obtain ⟨cond'?, body'⟩ := arm'
    obtain ⟨hcond, hbody⟩ : Option.Rel (EvaluatesAlike Eq) cond? cond'? ∧ RunsAlike Eq body body' := ha
    obtain rfl : body = body' := hrun hbody
    cases hcond with
    | none => rfl
    | some h => rw [hval h]

namespace Meaning

variable {r : Store → Store → Prop} {ι : Type} {a b : Store} {is : List ι}

/-! ## Statements -/

lemma sequence_cons_alike {run other : Runner} {runs others : List Runner} (hfirst : RunsAlike r run other)
    (hrest : RunsAlike r (sequence runs) (sequence others)) : RunsAlike r (sequence (run :: runs))
    (sequence (other :: others)) := by
  intro k a b hab
  have hends := @hfirst k a b hab
  rw [sequence, sequence]
  generalize run k a = res at hends ⊢
  generalize other k b = result' at hends ⊢
  cases hends with
  | none => exact .none
  | @some x y h =>
    obtain ⟨completion, a⟩ := x
    obtain ⟨_, b⟩ := y
    obtain ⟨rfl, hab⟩ : completion = _ ∧ r a b := h
    cases completion with
    | normal => exact hrest hab
    | _ => exact .some ⟨rfl, hab⟩

lemma sequence_alike {f g : ι → Runner} (h : ∀ i ∈ is, RunsAlike r (f i) (g i)) :
    RunsAlike r (sequence (is.map f)) (sequence (is.map g)) := by
  induction is with
  | nil => exact fun _ _ _ hab => .some ⟨rfl, hab⟩
  | cons i rest ih => exact sequence_cons_alike (h i (.head _)) (ih (List.forall_mem_cons.mp h).2)

lemma choose_alike {f g : ι → Option (Option Evaluator × Runner)}
    (h : ∀ i ∈ is, Option.Rel (fun a b => Option.Rel (EvaluatesAlike r) a.1 b.1 ∧ RunsAlike r a.2 b.2)
      (f i) (g i)) :
    RunsAlike r (choose (is.filterMap f)) (choose (is.filterMap g)) := by
  induction is with
  | nil => exact fun _ _ _ hab => .some ⟨rfl, hab⟩
  | cons i rest ih =>
    have hrest := ih (List.forall_mem_cons.mp h).2
    have hfirst := h i (.head _)
    rw [List.filterMap_cons, List.filterMap_cons]
    generalize f i = arm at hfirst ⊢
    generalize g i = arm' at hfirst ⊢
    cases hfirst with
    | none => exact hrest
    | @some arm arm' harm =>
      obtain ⟨cond?, body⟩ := arm
      obtain ⟨cond'?, body'⟩ := arm'
      obtain ⟨hcond, hbody⟩ : Option.Rel (EvaluatesAlike r) cond? cond'? ∧ RunsAlike r body body' := harm
      cases hcond with
      | none => exact hbody
      | some hcond =>
        intro k a b hab
        obtain ⟨hval, hafter⟩ := hcond hab
        rw [choose, choose]
        dsimp only
        rw [hval]
        split
        · exact hbody hafter
        · exact hrest hafter

lemma test_alike {cond? other? : Option Evaluator} (h : Option.Rel (EvaluatesAlike r) cond? other?) (hab : r a b) :
    (test cond? a).1 = (test other? b).1 ∧ r (test cond? a).2 (test other? b).2 := by
  cases h with
  | none => exact ⟨rfl, hab⟩
  | some h => exact ⟨congrArg Value.isTrue (h hab).1, (h hab).2⟩

lemma advance_alike {step? other? : Option Evaluator} (h : Option.Rel (EvaluatesAlike r) step? other?)
    (hab : r a b) : r (advance step? a) (advance other? b) := by
  cases h with
  | none => exact hab
  | some h => exact (h hab).2

section

variable {body other : Runner} {cond? cond'? step? step'? : Option Evaluator} (hbody : RunsAlike r body other)
  (hstep : ∀ ⦃a b⦄, r a b → r (advance step? a) (advance step'? b))
  (htest : ∀ ⦃a b⦄, r a b → (test cond? a).1 = (test cond'? b).1 ∧ r (test cond? a).2 (test cond'? b).2)

include hbody hstep htest

lemma repeated_alike : RunsAlike r (repeated body cond? step?) (repeated other cond'? step'?) := by
  intro k
  induction k with
  | zero => exact fun _ _ _ => .none
  | succ k ih =>
    intro a b hab
    have hends := @hbody k a b hab
    have hround {a b : Store} (hab : r a b) : EndsAlike r
        (if (test cond? (advance step? a)).1 then repeated body cond? step? k (test cond? (advance step? a)).2
          else some (.normal, (test cond? (advance step? a)).2))
        (if (test cond'? (advance step'? b)).1 then repeated other cond'? step'? k
          (test cond'? (advance step'? b)).2
          else some (.normal, (test cond'? (advance step'? b)).2)) := by
      obtain ⟨hsame, hafter⟩ := htest (hstep hab)
      rw [hsame]
      split
      · exact ih hafter
      · exact .some ⟨rfl, hafter⟩
    rw [repeated, repeated]
    generalize body k a = res at hends ⊢
    generalize other k b = result' at hends ⊢
    cases hends with
    | none => exact .none
    | @some x y h =>
      obtain ⟨completion, a⟩ := x
      obtain ⟨_, b⟩ := y
      obtain ⟨rfl, hab⟩ : completion = _ ∧ r a b := h
      cases completion with
      | normal | continues => exact hround hab
      | breaks | returns value? => exact .some ⟨rfl, hab⟩

lemma loop_alike (kind : LoopKind) : RunsAlike r (loop kind cond? step? body) (loop kind cond'? step'? other) := by
  have hrepeated := repeated_alike hbody hstep htest
  intro k a b hab
  unfold loop
  split
  · obtain ⟨hsame, hafter⟩ := htest hab
    dsimp only
    rw [hsame]
    split
    · exact hrepeated hafter
    · exact .some ⟨rfl, hafter⟩
  · exact hrepeated hab

end

/-! ## Expressions -/

lemma values_alike {f g : ι → Evaluator} (h : ∀ i ∈ is, EvaluatesAlike r (f i) (g i)) (hab : r a b) :
    (values (is.map f) a).1 = (values (is.map g) b).1 ∧ r (values (is.map f) a).2 (values (is.map g) b).2 := by
  induction is generalizing a b with
  | nil => exact ⟨rfl, hab⟩
  | cons i rest ih =>
    obtain ⟨hval, hafter⟩ := h i (.head _) hab
    obtain ⟨hvals, hlast⟩ := ih (List.forall_mem_cons.mp h).2 hafter
    exact ⟨congrArg₂ List.cons hval hvals, hlast⟩

end Meaning

variable (table : SymbolTable) (r : Store → Store → Prop)

def ReadsAlike (sym : SymbolId) : Prop := ∀ ⦃a b⦄, r a b → a.read table sym = b.read table sym

def WritesAlike (sym : SymbolId) : Prop := ∀ ⦃a b⦄, r a b → ∀ value, r (a.write table sym value)
    (b.write table sym value)

/-- What a node of the form itself reads, writes and calls respects a relation
between stores. -/
def Form.Respects : Form Node → Prop
  | .var sym => ReadsAlike table r sym
  | .declare sym _ => WritesAlike table r sym
  | .unary op operand =>
    op.isStep = true → ∀ sym, operand.form.var? = some sym → ReadsAlike table r sym ∧ WritesAlike table r sym
  | .binary op target _ => op = .assign → ∀ sym, target.form.var? = some sym → WritesAlike table r sym
  | .call callee _ => (∀ f, (table.get callee).kind ≠ .intrinsic f) →
    ∀ ⦃a b⦄, r a b → a.memory = b.memory ∧ ∀ memory, r { a with memory } { b with memory }
  | _ => True

/-- All that is evaluated below a node respects a relation between stores. -/
inductive Node.Respects : Node → Prop
  | mk {label : Label} {form : Form Node} (own : form.Respects table r) (parts : ∀ child ∈ form.evaluated,
      child.Respects) : Node.Respects (.mk label form)

variable (interp : Interpretation)

/-- Two nodes are alike as expressions, as statements and as arms. -/
def Node.ActsAlike (node other : Node) : Prop :=
  Meaning.Alike r (node.meaning interp table) (other.meaning interp table)

variable {table : SymbolTable} {r : Store → Store → Prop} {interp : Interpretation}

namespace Meaning

lemma assign_alike {tgt target' : Node} {val value' : Evaluator} (h : EvaluatesAlike r val value')
    (htgt : tgt.form.var? = target'.form.var?) (hwrite : ∀ sym, tgt.form.var? = some sym →
      WritesAlike table r sym) :
    EvaluatesAlike r (assign table tgt val) (assign table target' value') := by
  have hasg (tgt : Node) (val : Evaluator) (σ : Store) : assign table tgt val σ =
      ((val σ).1, tgt.form.var?.elim (val σ).2 fun sym => (val σ).2.write table sym (val σ).1) := by
    rw [assign]
    cases tgt.form <;> rfl
  intro a b hab
  obtain ⟨hval, hafter⟩ := h hab
  rw [hasg, hasg, ← htgt, hval]
  refine ⟨rfl, ?_⟩
  cases hvar : tgt.form.var? with
  | none => exact hafter
  | some sym => exact hwrite sym hvar hafter _

lemma step_alike {op : UnaryOp} {tgt target' : Node} (htgt : tgt.form.var? = target'.form.var?)
    (h : ∀ sym, tgt.form.var? = some sym → ReadsAlike table r sym ∧ WritesAlike table r sym) :
    EvaluatesAlike r (step table op tgt) (step table op target') := by
  intro a b hab
  cases hvar : tgt.form.var? with
  | none =>
    have hnone {node : Node} (h : node.form.var? = none) (σ : Store) : step table op node σ = (.int 0, σ) := by
      rw [step]
      cases hform : node.form <;> first | rfl | (rw [hform] at h; cases h)
    rw [hnone hvar, hnone (htgt.symm.trans hvar)]
    exact ⟨rfl, hab⟩
  | some sym =>
    obtain ⟨hread, hwrite⟩ := h sym hvar
    rw [step, step, eq_var_of_var? hvar, eq_var_of_var? (htgt.symm.trans hvar)]
    dsimp only
    rw [hread hab]
    exact ⟨rfl, hwrite hab _⟩

lemma operation_alike {op : BinaryOp} (hop : op ≠ .assign) (lhs lhs' : Node) {left left' right right' : Evaluator}
    (hl : EvaluatesAlike r left left') (hr : EvaluatesAlike r right right') :
    EvaluatesAlike r (binary interp table op lhs left right) (binary interp table op lhs' left' right') := by
  intro a b hab
  obtain ⟨hleft, hmid⟩ := hl hab
  obtain ⟨hright, hafter⟩ := hr hmid
  cases op with
  | assign => exact absurd rfl hop
  | and | or =>
    dsimp only [binary]
    rw [hleft]
    split
    · first | exact ⟨hright, hafter⟩ | exact ⟨rfl, hmid⟩
    · first | exact ⟨hright, hafter⟩ | exact ⟨rfl, hmid⟩
  | _ => exact ⟨congrArg₂ (interp.binary _) hleft hright, hafter⟩

lemma call_alike {lbl label' : Label} (htype : lbl.type = label'.type) {callee : SymbolId} {ι : Type}
    {is : List ι} {f g : ι → Evaluator} (h : ∀ i ∈ is, EvaluatesAlike r (f i) (g i))
    (hcall : (∀ f, (table.get callee).kind ≠ .intrinsic f) → ∀ ⦃a b⦄, r a b → a.memory = b.memory ∧
      ∀ memory, r { a with memory } { b with memory }) :
    EvaluatesAlike r (call interp table lbl callee (is.map f)) (call interp table label' callee (is.map g)) := by
  intro a b hab
  obtain ⟨hvals, hafter⟩ := values_alike h hab
  dsimp only [call]
  rw [hvals, htype]
  split
  · exact ⟨rfl, hafter⟩
  · rename_i hkind
    obtain ⟨hmem, hcalled⟩ := hcall (fun f hf => hkind f hf) hafter
    rw [hmem]
    exact ⟨rfl, hcalled _⟩

/-! ## Trees -/

variable {lbl label' : Label} {pairs : Form (Node × Node)} (htype : lbl.type = label'.type)
  (own : (pairs.map Prod.fst).Respects table r)
  (htgts : ∀ pair ∈ pairs.targets, pair.1.form.var? = pair.2.form.var?)
  (hparts : ∀ pair ∈ pairs.evaluated, pair.1.ActsAlike table r interp pair.2)

include htype own htgts hparts

lemma expression_alike :
    EvaluatesAlike r (expression interp table lbl (pairs.map fun pair => (pair.1, pair.1.meaning interp table)))
      (expression interp table label' (pairs.map fun pair => (pair.2, pair.2.meaning interp table))) := by
  cases pairs with
  | var sym => exact fun a b hab => ⟨own hab, hab⟩
  | unary op opd =>
    cases hstep : op.isStep with
    | true =>
      rw [targets, if_pos hstep] at htgts
      have hsteps : EvaluatesAlike r (step table op opd.1) (step table op opd.2) :=
        step_alike (htgts opd (.head _)) (own hstep)
      intro a b hab
      simp only [expression, map, unary, hstep, if_true]
      exact hsteps hab
    | false =>
      rw [evaluated, if_neg (by rw [hstep]; decide)] at hparts
      intro a b hab
      obtain ⟨hval, hafter⟩ := (hparts opd (.head _)).value hab
      simp only [expression, map, unary, hstep, Bool.false_eq_true, if_false, htype]
      exact ⟨congrArg (op.apply · label'.type) hval, hafter⟩
  | binary op lhs rhs =>
    by_cases hop : op = .assign
    · subst hop
      exact assign_alike (hparts rhs (.head _)).value (htgts lhs (.head _)) (own rfl)
    · have hevaluated : (Form.binary op lhs rhs).evaluated = [lhs, rhs] := by
        cases op <;> first | rfl | exact absurd rfl hop
      rw [hevaluated] at hparts
      exact operation_alike hop _ _ (hparts lhs (.head _)).value (hparts rhs (.tail _ (.head _))).value
  | call callee args =>
    simp only [expression, map, List.map_map]
    exact call_alike htype (fun pair hp => (hparts pair hp).value) own
  | swizzle obj field =>
    intro a b hab
    obtain ⟨hval, hafter⟩ := (hparts obj (.head _)).value hab
    exact ⟨congrArg (interp.lanes field) hval, hafter⟩
  | _ => exact fun a b hab => ⟨rfl, hab⟩

/-- Nodes of the same form, with children that are alike. -/
lemma Alike.ofForm :
    (Node.mk lbl (pairs.map Prod.fst)).ActsAlike table r interp (.mk label' (pairs.map Prod.snd)) := by
  have hval := expression_alike htype own htgts hparts
  have hoption {part? : Option (Node × Node)} (h : ∀ pair ∈ part?, pair.1.ActsAlike table r interp pair.2) :
      Option.Rel (EvaluatesAlike r) (part?.map fun pair => pair.1.value interp table) (part?.map fun pair =>
        pair.2.value interp table) := by
    cases part? with
    | none => exact .none
    | some pair => exact .some (h pair rfl).value
  rw [Node.ActsAlike, Node.meaning_mk, Node.meaning_mk, map_map, map_map]
  refine ⟨hval, ?_, ?_⟩
  · cases pairs with
    | block stmts =>
      simp only [ofForm, statement, map, List.map_map]
      exact sequence_alike fun pair hp => (hparts pair hp).run
    | branch arms =>
      simp only [ofForm, statement, map, List.filterMap_map]
      exact choose_alike fun pair hp => (hparts pair hp).arm
    | loop kind init? cond? step? body =>
      simp only [evaluated, children, List.mem_append, Option.mem_toList, List.mem_singleton] at hparts
      have hloop := loop_alike (hparts body (.inl (.inr rfl))).run (fun _ _ =>
        advance_alike (hoption fun pair hp => hparts pair (.inr hp)))
        (fun _ _ => test_alike (hoption fun pair hp => hparts pair (.inl (.inl (.inr hp))))) kind
      have hinit : RunsAlike r (sequence (init?.toList.map fun pair => pair.1.run interp table))
          (sequence (init?.toList.map fun pair => pair.2.run interp table)) :=
        sequence_alike fun pair hp => (hparts pair (.inl (.inl (.inl (Option.mem_toList.mp hp))))).run
      simp only [ofForm, statement, map, Option.map_map, Option.toList_map, List.map_map]
      exact sequence_cons_alike hinit (sequence_cons_alike hloop fun _ _ _ hab => .some ⟨rfl, hab⟩)
    | breakLoop | continueLoop => exact fun _ _ _ hab => .some ⟨rfl, hab⟩
    | returnValue value? =>
      intro k a b hab
      cases value? with
      | none => exact .some ⟨rfl, hab⟩
      | some pair =>
        obtain ⟨hsame, hafter⟩ := (hparts pair (.head _)).value hab
        exact .some ⟨congrArg (fun val => Completion.returns (some val)) hsame, hafter⟩
    | declare sym ini? =>
      intro k a b hab
      cases ini? with
      | none => exact .some ⟨rfl, hab⟩
      | some pair =>
        obtain ⟨hsame, hafter⟩ := (hparts pair (.head _)).value hab
        have hwritten := own hafter (pair.1.value interp table a).1
        refine .some ⟨rfl, ?_⟩
        change r ((pair.1.value interp table a).2.write table sym _)
          ((pair.2.value interp table b).2.write table sym _)
        rw [← hsame]
        exact hwritten
    | _ => exact fun _ _ _ hab => .some ⟨rfl, (hval hab).2⟩
  · cases pairs with
    | arm cond? body =>
      simp only [ofForm, map, Option.map_map]
      exact .some ⟨hoption fun pair hp => hparts pair (List.mem_append_left _ (Option.mem_toList.mpr hp)),
        (hparts body (List.mem_append_right _ (.head _))).run⟩
    | _ => exact .none

end Meaning

section

variable {lbl label' : Label} {form : Form Node}

/-- A node whose children were changed to nodes that are alike. -/
lemma Node.ActsAlike.map (f : Node → Node) (htype : lbl.type = label'.type) (own : form.Respects table r)
    (htgts : ∀ kid ∈ form.targets, kid.form.var? = (f kid).form.var?)
    (hparts : ∀ kid ∈ form.evaluated, kid.ActsAlike table r interp (f kid)) :
    (Node.mk lbl form).ActsAlike table r interp (.mk label' (form.map f)) := by
  have hfst : (form.map fun kid => (kid, f kid)).map Prod.fst = form := (map_map ..).trans (map_id form)
  have hboth : (Node.mk lbl ((form.map fun kid => (kid, f kid)).map Prod.fst)).ActsAlike table r interp
      (.mk label' ((form.map fun kid => (kid, f kid)).map Prod.snd)) := by
    refine Meaning.Alike.ofForm htype (hfst.symm ▸ own) ?_ ?_
    · rw [targets_map]
      exact List.forall_mem_map.mpr htgts
    · rw [evaluated_map]
      exact List.forall_mem_map.mpr hparts
  rwa [hfst, map_map] at hboth

end

/-- A node acts alike in related stores if what it does respects the relation. -/
lemma Node.Respects.alike {node : Node} (h : node.Respects table r) : node.ActsAlike table r interp node := by
  induction h with
  | @mk lbl form own parts ih =>
    have hsame : (Node.mk lbl form).ActsAlike table r interp (.mk lbl (form.map fun kid => kid)) :=
      .map _ rfl own (fun _ _ => rfl) ih
    rwa [map_id] at hsame

end Shading
