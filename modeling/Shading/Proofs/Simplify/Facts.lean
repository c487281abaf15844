import Shading.Proofs.Simplify.Visits

/-!
# Known values

What is known behind each action on `Facts`, and that known values have the
types of their locals (`Facts.Typed`).  Behind code that may not run nothing new
is known of the locals in scope (`Facts.Fewer`).
-/

namespace Shading

variable {conditional : Bool} {value? : Option Value}

namespace Facts

variable {facts : Facts} {env : SimplifyEnv} {sym other : SymbolId} {val : Value}

lemma lookup_forget : (facts.forget sym).lookup other = if other = sym then none else facts.lookup other := by
  obtain ⟨constants, loops, unreachable⟩ := facts
  simp only [lookup, forget]
  induction constants with
  | nil => simp
  | cons entry rest ih =>
    obtain ⟨key, known⟩ := entry
    by_cases hkey : key = sym
    · subst hkey
      rw [List.filter_cons_of_neg (by simp), ih, List.lookup_cons]
      by_cases hother : other = key
      · simp [hother]
      · simp [hother, beq_eq_false_iff_ne.mpr hother]
    · rw [List.filter_cons_of_pos (by simpa using hkey), List.lookup_cons, List.lookup_cons]
      by_cases hother : other = key
      · subst hother
        simp [hkey]
      · rw [beq_eq_false_iff_ne.mpr hother]
        exact ih

lemma lookup_forgetAll {names : List SymbolId} :
    (facts.forgetAll names).lookup other = if other ∈ names then none else facts.lookup other := by
  induction names generalizing facts with
  | nil => simp [forgetAll]
  | cons first rest ih =>
    rw [forgetAll, List.foldl_cons, ← forgetAll, ih, lookup_forget]
    by_cases hrest : other ∈ rest
    · simp [hrest]
    · by_cases hfirst : other = first <;> simp [hrest, hfirst]

lemma lookup_remember : (facts.remember sym val).lookup other =
    if other = sym then some val else facts.lookup other := by
  have hother : (facts.forget sym).lookup other = if other = sym then none else facts.lookup other :=
    lookup_forget
  rw [lookup] at hother
  rw [lookup, remember, List.lookup_cons]
  by_cases h : other = sym
  · simp [h]
  · rw [beq_eq_false_iff_ne.mpr h, hother, if_neg h]
    simp [h]

lemma lookup_record_self {known : Value} (h : (facts.record env conditional sym value?).lookup sym = some known) :
    value? = some known ∧ conditional = false ∧ (env.symbols.get sym).isLocal = true := by
  unfold record at h
  split at h
  · split at h
    · rename_i hrecords
      simp only [Bool.and_eq_true, Bool.not_eq_true'] at hrecords
      rw [lookup_remember, if_pos rfl] at h
      exact ⟨h, hrecords.1.2, hrecords.2⟩
    · rw [lookup_forget, if_pos rfl] at h
      cases h
  · rw [lookup_forget, if_pos rfl] at h
    cases h

lemma lookup_record_of_ne (h : other ≠ sym) :
    (facts.record env conditional sym value?).lookup other = facts.lookup other := by
  unfold record
  split
  · split
    · rw [lookup_remember, if_neg h]
    · rw [lookup_forget, if_neg h]
  · rw [lookup_forget, if_neg h]

lemma lookup_of_forget (h : (facts.forget sym).lookup other = some val) : facts.lookup other = some val := by
  rw [lookup_forget] at h
  split at h
  · cases h
  · exact h

lemma lookup_of_forgetAll {names : List SymbolId} (h : (facts.forgetAll names).lookup other = some val) :
    facts.lookup other = some val := by
  rw [lookup_forgetAll] at h
  split at h
  · cases h
  · exact h

/-! ## Types -/

/-- Only locals are known, and by values of their types. -/
def Typed (table : SymbolTable) (facts : Facts) : Prop :=
  ∀ sym value, facts.lookup sym = some value →
    (table.get sym).isLocal = true ∧ value.type = (table.get sym).type

namespace Typed

variable {tbl : SymbolTable}

lemma nothing {loops : List LoopExits} {unreachable : Bool} : Typed tbl ⟨[], loops, unreachable⟩ := by
  intro sym val h
  cases h

lemma forget (h : facts.Typed tbl) (sym : SymbolId) : (facts.forget sym).Typed tbl :=
  fun other val hlookup => h other val (lookup_of_forget hlookup)

lemma forgetAll (h : facts.Typed tbl) (list : List SymbolId) : (facts.forgetAll list).Typed tbl :=
  fun other val hlookup => h other val (lookup_of_forgetAll hlookup)

lemma record (h : facts.Typed env.symbols) (hv : ∀ val ∈ value?, val.type = (env.symbols.get sym).type) :
    (facts.record env conditional sym value?).Typed env.symbols := by
  intro other val hlookup
  by_cases hother : other = sym
  · subst hother
    obtain ⟨hval, -, hlocal⟩ := lookup_record_self hlookup
    exact ⟨hlocal, hv val hval⟩
  · rw [lookup_record_of_ne hother] at hlookup
    exact h other val hlookup

end Typed

/-! ## Locals in scope -/

/-- Of the locals in scope, `after` knows nothing that `before` does not. -/
def Fewer (scope : List SymbolId) (before after : Facts) : Prop :=
  ∀ sym ∈ scope, ∀ value, after.lookup sym = some value → before.lookup sym = some value

namespace Fewer

variable {a b c : Facts} {Γ : List SymbolId}

lemma refl (facts : Facts) : Fewer Γ facts facts := fun _ _ _ h => h

lemma trans (hab : Fewer Γ a b) (hbc : Fewer Γ b c) : Fewer Γ a c :=
  fun sym hm val h => hab sym hm val (hbc sym hm val h)

lemma mono {more : List SymbolId} (h : Fewer more a b) (hs : ∀ sym ∈ Γ, sym ∈ more) : Fewer Γ a b :=
  fun sym hm => h sym (hs sym hm)

lemma forget (facts : Facts) (sym : SymbolId) : Fewer Γ facts (facts.forget sym) :=
  fun _ _ _ h => lookup_of_forget h

lemma forgetAll (facts : Facts) (names : List SymbolId) : Fewer Γ facts (facts.forgetAll names) :=
  fun _ _ _ h => lookup_of_forgetAll h

/-- An assignment that may not run adds nothing. -/
lemma record (facts : Facts) (sym : SymbolId) (value? : Option Value) :
    Fewer Γ facts (facts.record env true sym value?) := by
  intro other _ val h
  by_cases hother : other = sym
  · subst hother
    cases (lookup_record_self h).2.1
  · rwa [lookup_record_of_ne hother] at h

/-- A declaration adds nothing about the symbols that are in scope before it. -/
lemma record_of_not_mem (facts : Facts) (hs : sym ∉ Γ) :
    Fewer Γ facts (facts.record env conditional sym value?) := by
  intro other hm val h
  have hne : other ≠ sym := by
    rintro rfl
    exact hs hm
  rwa [lookup_record_of_ne hne] at h

end Fewer

end Facts

section

open List

variable {env : SimplifyEnv}

/-- Bodies stay as they are while conditions are visited. -/
lemma VisitsConditions.body_mem {outer dynamic pre arms after halves} :
    VisitsConditions env outer dynamic pre arms after halves → ∀ half ∈ halves, ∃ lbl cond?,
      .mk lbl (.arm cond? half.body) ∈ arms
  | .nil, half, hm => by cases hm
  | .otherwise, half, hm | .always _ _, half, hm => by
    obtain rfl := mem_singleton.mp hm
    exact ⟨_, _, mem_cons_self ..⟩
  | .never _ _ visitRest, half, hm => by
    obtain ⟨lbl, cond?, ha⟩ := visitRest.body_mem half hm
    exact ⟨lbl, cond?, mem_cons_of_mem _ ha⟩
  | .sometimes _ visitRest, half, hm => by
    rcases mem_cons.mp hm with rfl | hm
    · exact ⟨_, _, mem_cons_self ..⟩
    · obtain ⟨lbl, cond?, ha⟩ := visitRest.body_mem half hm
      exact ⟨lbl, cond?, mem_cons_of_mem _ ha⟩

mutual

/-- A visit of code that may not run adds nothing about the locals in scope. -/
theorem Visits.fewer {Γ outer pre node after seen} : Visits env outer pre node after seen →
    outer.conditional = true → node.Scoped env.symbols Γ → pre.Fewer Γ after
  | .relabel visit _, hc, hs => visit.fewer hc hs
  | .immediate, _, _ | .var, _, _ | .known _ _, _, _ => .refl _
  | .swizzle visit, hc, hs | .unary _ visit, hc, hs | .cancel _ visit _ _, hc, hs | .foldUnary _ visit _, hc, hs =>
    visit.fewer hc (hs.child_of_expression rfl (.head _))
  | .step _ _, _, _ => .forget _ _
  | .foldStep _ _ _ _ _ _, hc, _ => by
    rw [hc]
    exact .record _ _ _
  | .operation _ _ visitLeft visitRight _, hc, hs =>
    .trans (visitLeft.fewer hc (hs.child_of_expression rfl (.head _))) (visitRight.fewer hc
        (hs.child_of_expression rfl (.tail _ (.head _))))
  | .logical _ visitLeft visitRight _, hc, hs =>
    .trans (visitLeft.fewer hc (hs.child_of_expression rfl (.head _))) (visitRight.fewer rfl
        (hs.child_of_expression rfl (.tail _ (.head _))))
  | .assign _ visit _, hc, hs => by
    rw [hc]
    exact .trans (visit.fewer hc (hs.child_of_expression rfl (.tail _ (.head _)))) (.record _ _ _)
  | .call visit _ _, hc, hs | .foldCall visit _ _ _, hc, hs =>
    visit.fewer hc fun _ hm => hs.child_of_expression rfl hm
  | .declare, _, _ => .forget _ _
  | .define visit _, hc, hs => by
    obtain ⟨hsym, hval⟩ := Node.scoped_mk.mp hs
    exact .trans (visit.fewer hc (hval _ rfl)) (.record_of_not_mem _ hsym)
  | .returnNothing _ _, _, _ | .breakLoop _, _, _ | .continueLoop _, _, _ => .refl _
  | .returnValue _ _ visit _, hc, hs => by
    have ih := visit.fewer hc (Node.scoped_mk.mp hs _ (.head _))
    exact ih
  | .block visit, hc, hs => by
    have ih := visit.fewer hc (Node.scoped_mk.mp hs)
    split
    · exact ih
    · exact ih.trans (.forgetAll _ _)
  | .branch visitConds visitBodies, hc, hs => by
    have harms := Node.scoped_mk.mp hs
    have ih := visitConds.fewer (by rw [hc]; rfl) harms
    have ihBodies := visitBodies.fewer fun half hm =>
      let ⟨_, _, ha⟩ := visitConds.body_mem half hm
      (harms _ ha).arm.2
    exact ih.trans ihBodies
  | .noArm _ visitConds, hc, hs =>
    visitConds.fewer (by rw [hc]; rfl) (Node.scoped_mk.mp hs)
  | .onlyArm _ visitConds visitBody, hc, hs => by
    have harms := Node.scoped_mk.mp hs
    have ih := visitConds.fewer (by rw [hc]; rfl) harms
    obtain ⟨lbl, cond?, ha⟩ := visitConds.body_mem _ (.head _)
    exact ih.trans (visitBody.fewer hc (harms _ ha).arm.2)
  | .removeLoop visitInit visitCond _ _ _, hc, hs => by
    obtain ⟨hinit, hcond, -, -⟩ := Node.scoped_mk.mp hs
    have ih := visitInit.fewer hc fun node hm => hinit node (Option.mem_toList.mp hm)
    have ihCondition := visitCond.fewer rfl (hcond _ rfl)
    exact (ih.trans (.forgetAll _ _)).trans (ihCondition.mono fun _ hm => mem_append_right _ hm)
  | .loop visitInit visitCond _ visitBody visitStep, hc, hs => by
    obtain ⟨hinit, hcond, hstep, hbody⟩ := Node.scoped_mk.mp hs
    have ih := visitInit.fewer hc fun node hm => hinit node (Option.mem_toList.mp hm)
    have ihCondition := visitCond.fewer rfl fun node hm => hcond node (Option.mem_toList.mp hm)
    have ihBody := visitBody.fewer rfl hbody
    have ihStep := visitStep.fewer rfl fun node hm => hstep node (Option.mem_toList.mp hm)
    exact (ih.trans (.forgetAll _ _)).trans
      (((ihCondition.trans ihBody).trans ihStep).mono fun _ hm => mem_append_right _ hm)

theorem VisitsAll.fewer {Γ outer pre nodes after seen} :
    VisitsAll env outer pre nodes after seen → outer.conditional = true →
    (∀ node ∈ nodes, node.Scoped env.symbols Γ) → pre.Fewer Γ after
  | .nil, _, _ => .refl _
  | .cons visit visitRest, hc, hs =>
    .trans (visit.fewer hc (hs _ (.head _))) (visitRest.fewer hc (forall_mem_cons.mp hs).2)

theorem VisitsStatements.fewer {Γ outer pre nodes after kept declared} :
    VisitsStatements env outer pre nodes after kept declared → outer.conditional = true →
    Node.ScopedAll env.symbols Γ nodes → pre.Fewer Γ after
  | .nil, _, _ | .unreachable _, _, _ => .refl _
  | .drop _ visit _ visitRest, hc, hs | .keep _ visit visitRest, hc, hs =>
    .trans (visit.fewer hc hs.1) ((visitRest.fewer hc hs.2).mono fun _ hm => mem_append_right _ hm)

theorem VisitsConditions.fewer {Γ outer dynamic pre arms after halves} :
    VisitsConditions env outer dynamic pre arms after halves → (outer.conditional || dynamic) = true →
    (∀ arm ∈ arms, arm.Scoped env.symbols Γ) → pre.Fewer Γ after
  | .nil, _, _ | .otherwise, _, _ => .refl _
  | .never visit _ visitRest, hc, hs =>
    .trans (visit.fewer hc ((hs _ (.head _)).arm.1 _ rfl)) (visitRest.fewer hc (forall_mem_cons.mp hs).2)
  | .always visit _, hc, hs =>
    visit.fewer hc ((hs _ (.head _)).arm.1 _ rfl)
  | .sometimes visit visitRest, hc, hs =>
    .trans (visit.fewer hc ((hs _ (.head _)).arm.1 _ rfl))
      (visitRest.fewer (Bool.or_true _) (forall_mem_cons.mp hs).2)

theorem VisitsBodies.fewer {Γ outer hasDefault allUnreachable pre halves after seen unreachable} :
    VisitsBodies env outer hasDefault allUnreachable pre halves after seen unreachable →
    (∀ half ∈ halves, half.body.Scoped env.symbols Γ) → pre.Fewer Γ after
  | .nil, _ => .refl _
  | .cons visit visitRest, hs => by
    have ih := visit.fewer rfl (hs _ (.head _))
    have ihRest := visitRest.fewer (forall_mem_cons.mp hs).2
    exact ih.trans ihRest

end

end

end Shading
