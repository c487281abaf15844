import Shading.Proofs.Run.Choice
import Shading.Proofs.Simplify.Values

/-!
# Visits keep runs

`Visits.sameRun`: over words, what becomes of a statement runs as the statement
does, for every number of rounds, and what is known behind it holds whenever
control gets there.
-/

namespace Shading

open Node Form Meaning
open List hiding isEmpty

variable {sem : Interpretation} {tbl : SymbolTable} {Γ : List SymbolId} {after pre : Facts}
  {σ : Store} {node val seen body : Node} {cond? step? : Option Node} {sym : SymbolId} {lbl : Label}
  {env : SimplifyEnv} {res : ValueType}

/-- What becomes of a statement at a store. -/
structure SameRun (interp : Interpretation) (table : SymbolTable) (scope : List SymbolId) (store : Store)
    (node visited : Node) (after : Facts) : Prop where
  run_eq : ∀ rounds, visited.run interp table rounds store = node.run interp table rounds store
  holds : ∀ {rounds last}, node.run interp table rounds store = some (.normal, last) →
    after.Hold table (node.initExports ++ scope) last

namespace Node

lemma mem_initExports_of_mem_exports (h : sym ∈ node.exports) : sym ∈ node.initExports := by
  obtain ⟨lbl, form⟩ := node
  cases form <;> first | exact h | cases h

/-- What is known of the parts of a loop. -/
lemma Ready.loop {kind : LoopKind} {init? : Option Node}
    (h : (Node.mk lbl (.loop kind init? cond? step? body)).Ready tbl Γ) :
    let inside := (init?.map initExports).getD [] ++ Γ
    (∀ node ∈ init?.toList, node.Ready tbl Γ ∧ node.IsInit) ∧
      (∀ node ∈ cond?.toList, node.Ready tbl inside ∧ node.form.isExpression = true) ∧
      (∀ node ∈ step?.toList, node.Ready tbl inside ∧ node.form.isExpression = true) ∧
      body.Ready tbl inside ∧ body.form.isArm = false := by
  obtain ⟨hinit, hcond, hstep, hbody⟩ := h.typed.loop_flow
  obtain ⟨hinitScope, hcondScope, hstepScope, hbodyScope⟩ := scoped_mk.mp h.inScope
  have hwords : ∀ kid ∈ (Form.loop kind init? cond? step? body).children, kid.Words tbl :=
    fun kid hc => h.words.child hc
  refine ⟨fun node hm => ⟨⟨(hinit node hm).1, hwords node ?_, hinitScope node (Option.mem_toList.mp hm)⟩,
    (hinit node hm).2⟩, fun node hm => ⟨⟨(hcond node hm).1, hwords node ?_,
    hcondScope node (Option.mem_toList.mp hm)⟩, (hcond node hm).2⟩, fun node hm => ⟨⟨(hstep node hm).1,
    hwords node ?_, hstepScope node (Option.mem_toList.mp hm)⟩, (hstep node hm).2⟩,
    ⟨hbody, hwords body ?_, hbodyScope⟩, ?_⟩
  · simp_all [Form.children]
  · simp_all [Form.children]
  · simp_all [Form.children]
  · simp [Form.children]
  · have hblk := h.typed.rule.2.2.2
    revert hblk
    cases body.form <;> simp [isBlock, isArm]

lemma Ready.arm (h : (Node.mk lbl (.arm cond? body)).Ready tbl Γ) :
    (∀ cond ∈ cond?, cond.Ready tbl Γ ∧ cond.form.isExpression = true) ∧
      body.Ready tbl Γ ∧ body.form.isArm = false := by
  obtain ⟨hconds, hbody⟩ := h.inScope.arm
  refine ⟨fun cond hc => ?_, ?_, ?_⟩
  · have hm : cond ∈ (Form.arm cond? body).children :=
      mem_append_left _ (Option.mem_toList.mpr hc)
    exact ⟨⟨h.typed.child hm, h.words.child hm, hconds cond hc⟩, (h.typed.rule.1 cond hc).1⟩
  · have hm : body ∈ (Form.arm cond? body).children := mem_append_right _ (.head _)
    exact ⟨h.typed.child hm, h.words.child hm, hbody⟩
  · have hblk := h.typed.rule.2
    revert hblk
    cases body.form <;> simp [isBlock, isArm]

end Node

namespace SameRun

variable {place : Place}

lemma of_sameValue (h : SameValue sem env.symbols Γ place σ node seen after)
    (hn : node.form.isExpression = true) (hv : seen.form.isExpression = true) :
    SameRun sem env.symbols Γ σ node seen after := by
  refine ⟨fun k => ?_, fun {k last} hrun => ?_⟩
  · rw [run_expression hn, run_expression hv]
    exact congrArg (fun last => some (Completion.normal, last)) h.store_eq
  · rw [run_expression hn] at hrun
    cases hrun
    rw [initExports_of_expression hn]
    exact h.holds

lemma of_visits {outer : Surroundings} (h : Visits env outer pre node after seen)
    (ho : ReturnsWord env.symbols res outer.function?) (hb : pre.Typed env.symbols)
    (hn : node.Ready env.symbols Γ) (he : node.form.isExpression = true)
    (hold : pre.Hold env.symbols Γ σ) : SameRun sem env.symbols Γ σ node seen after := by
  refine of_sameValue (Visits.sameValue sem h ho hb hn he σ hold) he ?_
  rw [(Visits.preserved h ho.toReturnsType hb hn.typed).1.isExpression_eq, he]

lemma define (hn : (Node.mk lbl (.declare sym (some val))).Ready env.symbols Γ) (ht : after.Typed env.symbols)
    (ih : SameValue sem env.symbols Γ .nested σ val seen after) :
    SameRun sem env.symbols Γ σ (.mk lbl (.declare sym (some val)))
      (.mk lbl (.declare sym (some seen))) (after.record env false sym seen.immediate?) := by
  obtain ⟨-, hvoid, -, hinitializer⟩ := hn.typed.rule
  obtain ⟨he, htype⟩ := hinitializer val rfl
  have hval : val ∈ (declare sym (some val)).children := mem_singleton_self _
  have hword : val.type.IsWord := (hn.words.child hval).isWord he (htype ▸ hvoid)
  refine ⟨fun k => ?_, fun {k last} hrun => ?_⟩
  · rw [run_define, run_define, ih.eq]
  · rw [run_define] at hrun
    obtain ⟨-, rfl⟩ := Prod.mk.inj (Option.some.inj hrun)
    refine ih.holds.record ht (htype ▸ hword) ?_ (fun known hknown => ?_) fun other hm => ?_
    · rw [type_value sem (hn.typed.child hval) (hn.words.child hval) he hword, htype]
    · rw [← ih.eq, value_of_immediate? hknown]
    · simpa [initExports] using hm

lemma returnValue {facts : Facts} (ih : SameValue sem env.symbols Γ .nested σ val seen after) :
    SameRun sem env.symbols Γ σ (.mk lbl (.returnValue (some val)))
      (.mk lbl (.returnValue (some seen))) facts := by
  refine ⟨fun k => ?_, fun {k last} hrun => ?_⟩
  · rw [run_return_some, run_return_some, ih.eq]
  · rw [run_return_some] at hrun
    cases hrun

end SameRun

/-! ## Statements in a row -/

/-- What becomes of statements in a row. -/
structure SameRuns (interp : Interpretation) (table : SymbolTable) (scope : List SymbolId) (store : Store)
    (nodes kept : List Node) (after : Facts) : Prop where
  run_eq : ∀ rounds, Meaning.sequence (kept.map (·.run interp table)) rounds store =
    Meaning.sequence (nodes.map (·.run interp table)) rounds store
  holds : ∀ {rounds last}, Meaning.sequence (nodes.map (·.run interp table)) rounds store =
    some (.normal, last) → after.Hold table (nodes.flatMap (·.exports) ++ scope) last

namespace SameRuns

variable {rest kept : List Node} {mid : Facts}

lemma keep (hfirst : SameRun sem tbl Γ σ node seen mid)
    (hrest : ∀ {k last}, seen.run sem tbl k σ = some (.normal, last) → mid.Hold tbl (node.exports ++ Γ) last →
      SameRuns sem tbl (node.exports ++ Γ) last rest kept after) :
    SameRuns sem tbl Γ σ (node :: rest) (seen :: kept) after := by
  have hnormal : ∀ {k last}, node.run sem tbl k σ = some (.normal, last) →
      SameRuns sem tbl (node.exports ++ Γ) last rest kept after := by
    intro k last hrun
    refine hrest ((hfirst.run_eq k).trans hrun) ((hfirst.holds hrun).mono fun sym hm => ?_)
    rcases mem_append.mp hm with hm | hm
    · exact mem_append_left _ (mem_initExports_of_mem_exports hm)
    · exact mem_append_right _ hm
  refine ⟨fun k => ?_, fun {k last} hrun => ?_⟩
  · rw [map_cons, map_cons, Meaning.sequence, Meaning.sequence, hfirst.run_eq k]
    split
    · exact (hnormal ‹_›).run_eq k
    · rfl
  · rw [map_cons, Meaning.sequence] at hrun
    split at hrun
    · refine ((hnormal ‹_›).holds hrun).mono fun sym hm => ?_
      simp only [flatMap_cons, mem_append] at hm ⊢
      tauto
    · rename_i hne
      exact absurd hrun (hne _)

lemma drop (hempty : seen.form.isEmpty = true)
    (h : SameRuns sem tbl Γ σ (node :: rest) (seen :: kept) after) :
    SameRuns sem tbl Γ σ (node :: rest) kept after := by
  refine ⟨fun k => ?_, h.holds⟩
  rw [← h.run_eq k, map_cons, Meaning.sequence]
  obtain ⟨lbl, form⟩ := seen
  have hform : form = .block [] := by
    cases form with
    | block stmts => cases stmts <;> first | rfl | cases hempty
    | _ => cases hempty
  subst hform
  rw [run_block]
  rfl

end SameRuns

namespace SameRun

lemma block {stmts kept : List Node} (h : SameRuns sem env.symbols Γ σ stmts kept after) :
    SameRun sem env.symbols Γ σ (.mk lbl (.block stmts)) (.mk lbl (.block kept)) after := by
  refine ⟨fun k => ?_, fun {k last} hrun => ?_⟩
  · rw [run_block, run_block, h.run_eq]
  · rw [run_block] at hrun
    exact h.holds hrun

lemma fewer {less : Facts} (h : SameRun sem env.symbols Γ σ node seen after)
    (hf : after.Fewer (node.initExports ++ Γ) less) :
    SameRun sem env.symbols Γ σ node seen less :=
  ⟨h.run_eq, fun hrun => (h.holds hrun).fewer hf⟩

end SameRun

/-! ## Arms -/

/-- The empty statement. -/
lemma Node.run_nothing (k : Nat) (σ : Store) : nothing.run sem tbl k σ = some (.normal, σ) := by
  rw [nothing, empty, run_block]
  rfl

/-- The body of an arm at a store in which it may be entered. -/
def SameBody (interp : Interpretation) (table : SymbolTable) (scope : List SymbolId) (store : Store)
    (after : Facts) (body visited : Node) : Prop :=
  ∀ rounds, visited.run interp table rounds store = body.run interp table rounds store ∧
    ∀ last, body.run interp table rounds store = some (.normal, last) → after.Hold table scope last

lemma SameBody.enter {took other : Option Node × Store}
    (h : Option.Rel (SameBody sem tbl Γ took.2 after) took.1 other.1)
    (hs : took.2 = other.2) (hnone : after.Hold tbl Γ took.2) (k : Nat) :
    enter (other.1.map (·.run sem tbl), other.2) k = enter (took.1.map (·.run sem tbl), took.2) k ∧
      ∀ last, enter (took.1.map (·.run sem tbl), took.2) k = some (.normal, last) →
        after.Hold tbl Γ last := by
  obtain ⟨body?, σ⟩ := took
  obtain ⟨visited?, _⟩ := other
  obtain rfl : σ = _ := hs
  cases h with
  | none =>
    refine ⟨rfl, fun last hrun => ?_⟩
    cases hrun
    exact hnone
  | some hbody => exact hbody k

/-- What becomes of an arm whose body is visited. -/
def HalfArm.SameArm (interp : Interpretation) (table : SymbolTable) (scope : List SymbolId) (store : Store)
    (after : Facts) (half : HalfArm) (arm : Node) : Prop :=
  ∃ visited, arm = .mk half.label (.arm half.condition? visited) ∧
    SameBody interp table scope store after half.body visited

/-- The arm a branch takes behind the visits of its conditions. -/
def HalfArm.taken (interp : Interpretation) (table : SymbolTable) (halves : List HalfArm) (store : Store) :
    Option Node × Store :=
  pick (halves.map fun half => (half.condition?.map (·.value interp table), half.body)) store

lemma HalfArm.taken_cons (lbl : Label) (cond body : Node) (rest : List HalfArm) (σ : Store) :
    taken sem tbl (⟨lbl, some cond, body⟩ :: rest) σ =
      if (cond.value sem tbl σ).1.isTrue then
        (some body, (cond.value sem tbl σ).2)
      else taken sem tbl rest (cond.value sem tbl σ).2 := rfl

/-- No arm is left. -/
lemma SameRun.noArm {arms : List Node}
    (htaken : Node.taken sem tbl arms σ = (none, σ)) (hold : after.Hold tbl Γ σ) :
    SameRun sem tbl Γ σ (.mk lbl (.branch arms)) .nothing after := by
  have hbranch : ∀ k, (Node.mk lbl (.branch arms)).run sem tbl k σ = some (.normal, σ) := by
    intro k
    rw [Node.run_branch_eq, htaken]
    rfl
  refine ⟨fun k => ?_, fun {k last} hrun => ?_⟩
  · rw [hbranch, run_nothing]
  · rw [hbranch] at hrun
    cases hrun
    exact hold

/-- One arm is left, which is always taken. -/
lemma SameRun.onlyArm {arms : List Node} (htaken : taken sem tbl arms σ = (some body, σ))
    (h : SameRun sem tbl Γ σ body seen after) :
    SameRun sem tbl Γ σ (.mk lbl (.branch arms)) seen after := by
  have hbranch : ∀ k, (Node.mk lbl (.branch arms)).run sem tbl k σ = body.run sem tbl k σ := by
    intro k
    rw [run_branch_eq, htaken]
    rfl
  refine ⟨fun k => (h.run_eq k).trans (hbranch k).symm, fun {k last} hrun => ?_⟩
  rw [hbranch] at hrun
  exact (h.holds hrun).mono fun sym hm => mem_append_right _ hm

lemma SameRun.branch {arms seen : List Node} {halves : List HalfArm}
    (htaken : HalfArm.taken sem tbl halves σ = taken sem tbl arms σ)
    (hbodies : List.Forall₂ (HalfArm.SameArm sem tbl Γ (taken sem tbl arms σ).2 after) halves seen)
    (hnone : after.Hold tbl Γ (taken sem tbl arms σ).2) :
    SameRun sem tbl Γ σ (.mk lbl (.branch arms)) (.mk lbl (.branch seen)) after := by
  have hrelated : List.Forall₂ (fun (a b : Option Evaluator × Node) => a.1 = b.1 ∧ SameBody sem tbl Γ
        (taken sem tbl arms σ).2 after a.2 b.2)
      (halves.map fun half => (half.condition?.map (·.value sem tbl), half.body))
      (seen.filterMap (·.armParts? sem tbl)) := by
    clear hnone htaken
    induction hbodies with
    | nil => exact .nil
    | cons hfirst hrest ih =>
      obtain ⟨body, rfl, hbody⟩ := hfirst
      rw [filterMap_cons_some (armParts?_arm _ _)]
      exact .cons ⟨rfl, hbody⟩ ih
  obtain ⟨hbody, hstore⟩ := pick_forall₂ hrelated σ
  rw [← HalfArm.taken, htaken] at hbody hstore
  have henter := SameBody.enter hbody hstore hnone
  refine ⟨fun k => ?_, fun {k last} hrun => ?_⟩
  · rw [run_branch_eq, run_branch_eq]
    exact (henter k).1
  · rw [run_branch_eq] at hrun
    exact (henter k).2 last hrun

/-! ## Loops -/

/-- What is known of a loop holds through a part of a round. -/
lemma Facts.Hold.round {facts : Facts} {last : Store} {part : Node} (ht : facts.Typed tbl)
    (hp : part ∈ cond?.toList ++ step?.toList ++ [body])
    (h : (facts.forgetAll (roundAssigned cond? step? body)).Hold tbl Γ σ)
    (hk : σ.Keeps tbl (part.assigned .read) last) :
    (facts.forgetAll (roundAssigned cond? step? body)).Hold tbl Γ last :=
  h.keeps (ht.forgetAll _) hk fun _ hm =>
    (lookup_forgetAll ..).trans (if_pos (mem_flatMap.mpr ⟨part, hp, hm⟩))

lemma Meaning.sequence_step (h : ∀ step ∈ step?.toList, step.form.isExpression = true) (k : Nat) (σ : Store) :
    Meaning.sequence (step?.toList.map (·.run sem tbl)) k σ =
      some (.normal, advance (step?.map (·.value sem tbl)) σ) := by
  cases step? with
  | none => rfl
  | some step =>
    rw [Option.toList_some, map_singleton, sequence_singleton, run_expression (h step (.head _))]
    rfl

lemma Node.run_onlyInit (lbl : Label) (init? : Option Node)
    (k : Nat) (σ : Store) : (onlyInit lbl init?).run sem tbl k σ =
      Meaning.sequence (init?.toList.map (·.run sem tbl)) k σ := by
  cases init? with
  | none => exact run_nothing k σ
  | some init => rw [onlyInit, run_block, Option.toList_some]

section

variable {afterInit : Facts} {kind : LoopKind} {init? : Option Node} {body : Node}
  {visitedInit? visitedCondition? kept? visitedStep? : Option Node} {visitedBody : Node}

/-- The test of a loop whose condition is dropped because it always holds. -/
lemma test_of_keeps (keeps : kept? = visitedCondition? ∨
      kept? = none ∧ visitedCondition?.all (fun cond => cond.literalCondition? = some true) = true)
    (h : values (visitedCondition?.toList.map (·.value sem env.symbols)) σ =
      values (cond?.toList.map (·.value sem env.symbols)) σ) :
    test (kept?.map (·.value sem env.symbols)) σ = test (cond?.map (·.value sem env.symbols)) σ := by
  have hvis : test (visitedCondition?.map (·.value sem env.symbols)) σ =
      test (cond?.map (·.value sem env.symbols)) σ := by
    refine test_congr ?_
    rw [Option.toList_map, Option.toList_map]
    exact h
  rcases keeps with rfl | ⟨rfl, htrue⟩
  · exact hvis
  · rw [← hvis, test_of_literal (fun h => value_of_literalCondition? h _) htrue]
    rfl

variable (hinit : ∀ k, Meaning.sequence (visitedInit?.toList.map (·.run sem env.symbols)) k σ =
    Meaning.sequence (init?.toList.map (·.run sem env.symbols)) k σ)
  (hin : ∀ {k last}, Meaning.sequence (init?.toList.map (·.run sem env.symbols)) k σ =
    some (.normal, last) → afterInit.Hold env.symbols ((init?.map initExports).getD [] ++ Γ) last)

include hinit hin

lemma SameRun.loop (hn : (Node.mk lbl (.loop kind init? cond? step? body)).Ready env.symbols Γ)
    (ht : afterInit.Typed env.symbols)
    (keeps : kept? = visitedCondition? ∨
      kept? = none ∧ visitedCondition?.all (fun cond => cond.literalCondition? = some true) = true)
    (hround : ∀ σ, (afterInit.forgetAll (roundAssigned cond? step? body)).Hold env.symbols
        ((init?.map initExports).getD [] ++ Γ) σ →
      values (visitedCondition?.toList.map (·.value sem env.symbols)) σ =
        values (cond?.toList.map (·.value sem env.symbols)) σ ∧
      (∀ k, visitedBody.run sem env.symbols k σ = body.run sem env.symbols k σ) ∧
      ∀ k, Meaning.sequence (visitedStep?.toList.map (·.run sem env.symbols)) k σ =
        Meaning.sequence (step?.toList.map (·.run sem env.symbols)) k σ)
    (hsteps : ∀ step ∈ visitedStep?.toList, step.form.isExpression = true)
    (hfewer : (afterInit.forgetAll (roundAssigned cond? step? body)).Fewer
      ((init?.map initExports).getD [] ++ Γ) after) :
    SameRun sem env.symbols Γ σ (.mk lbl (.loop kind init? cond? step? body))
      (.mk lbl (.loop kind visitedInit? kept? visitedStep? visitedBody)) after := by
  obtain ⟨hinits, hconds, hstepReady, hbodyReady, harm⟩ := hn.loop
  -- What is known of the locals that no round writes.
  let p : Store → Prop := (afterInit.forgetAll (roundAssigned cond? step? body)).Hold env.symbols
    ((init?.map initExports).getD [] ++ Γ)
  have hsame : RunsAlike (fun a b => a = b ∧ p a) (Meaning.loop kind (kept?.map (·.value sem env.symbols))
      (visitedStep?.map (·.value sem env.symbols)) (visitedBody.run sem env.symbols))
      (Meaning.loop kind (cond?.map (·.value sem env.symbols)) (step?.map (·.value sem env.symbols))
        (body.run sem env.symbols)) := by
    refine Meaning.loop_alike ?_ ?_ ?_ kind
    · rintro k a _ ⟨rfl, hp⟩
      rw [(hround a hp).2.1 k]
      cases hrun : body.run sem env.symbols k a with
      | none => exact .none
      | some res => exact .some ⟨rfl, rfl, hp.round ht (mem_append_right _ (.head _)) (keeps_run hrun)⟩
    · rintro a _ ⟨rfl, hp⟩
      have hadvance := (hround a hp).2.2 0
      rw [sequence_step hsteps, sequence_step fun node hm => (hstepReady node hm).2] at hadvance
      rw [(Prod.mk.inj (Option.some.inj hadvance)).2]
      refine ⟨rfl, ?_⟩
      cases step? with
      | none => exact hp
      | some step => exact hp.round ht (mem_append_left _ (mem_append_right _ (.head _))) (step.keeps_value a)
    · rintro a _ ⟨rfl, hp⟩
      rw [test_of_keeps keeps (hround a hp).1]
      refine ⟨rfl, rfl, ?_⟩
      cases cond? with
      | none => exact hp
      | some cond => exact hp.round ht (mem_append_left _ (.head _)) (cond.keeps_value a)
  have hstart : ∃ mid, ∀ k, Meaning.sequence (init?.toList.map (·.run sem env.symbols)) k σ =
      some (.normal, mid) :=
    exists_run_of_isInit (fun init hi => (hinits init (Option.mem_toList.mpr hi)).2) σ
  obtain ⟨mid, hmid⟩ := hstart
  have hp : p mid := (hin (hmid 0)).fewer (.forgetAll _ _)
  have hends (k : Nat) := (@hsame k mid mid ⟨rfl, hp⟩).eq
  refine ⟨fun k => ?_, fun {k last} hrun => ?_⟩
  · rw [run_loop_of_init (hmid k), run_loop_of_init ((hinit k).trans (hmid k))]
    exact (hends k).1
  · rw [run_loop_of_init (hmid k)] at hrun
    exact (((hends k).2 hrun).fewer hfewer).mono fun sym hm => mem_append_right _ hm

lemma SameRun.removeLoop {cond : Node}
    (hn : (Node.mk lbl (.loop kind init? (some cond) step? body)).Ready env.symbols Γ)
    (isPretest : kind.isPretest = true) (isFalse : seen.literalCondition? = some false)
    (hcond : ∀ σ, afterInit.Hold env.symbols ((init?.map Node.initExports).getD [] ++ Γ) σ →
      SameValue sem env.symbols ((init?.map initExports).getD [] ++ Γ) .nested σ cond seen after) :
    SameRun sem env.symbols Γ σ (.mk lbl (.loop kind init? (some cond) step? body))
      (.onlyInit lbl visitedInit?) after := by
  have hstart : ∃ mid, ∀ k, Meaning.sequence (init?.toList.map (·.run sem env.symbols)) k σ =
      some (.normal, mid) :=
    exists_run_of_isInit (fun init hi => (hn.loop.1 init (Option.mem_toList.mpr hi)).2) σ
  obtain ⟨mid, hmid⟩ := hstart
  have hvis := hcond mid (hin (hmid 0))
  have hval : cond.value sem env.symbols mid = (.bool false, mid) := by
    rw [← hvis.eq, Node.value_of_literalCondition? isFalse]
  have hloop : ∀ k, (Node.mk lbl (.loop kind init? (some cond) step? body)).run sem env.symbols
      k σ = some (.normal, mid) := by
    intro k
    rw [Node.run_loop_of_init (hmid k), Meaning.loop, if_pos isPretest, Option.map_some, Meaning.test]
    dsimp only
    rw [hval]
    rfl
  refine ⟨fun k => ?_, fun {k last} hrun => ?_⟩
  · rw [run_onlyInit, hinit, hmid, hloop]
  · rw [hloop] at hrun
    cases hrun
    have hholds := hvis.holds
    rw [hval] at hholds
    exact hholds.mono fun sym hm => mem_append_right _ hm

end

/-! ## Whole visits -/

namespace Node.Ready

lemma child_of_declare (h : (Node.mk lbl (.declare sym (some val))).Ready tbl Γ) : val.Ready tbl Γ := by
  have hm : val ∈ (declare sym (some val)).children := mem_singleton_self _
  exact ⟨h.typed.child hm, h.words.child hm, (scoped_mk.mp h.inScope).2 val rfl⟩

lemma child_of_return (h : (Node.mk lbl (.returnValue (some val))).Ready tbl Γ) : val.Ready tbl Γ := by
  have hm : val ∈ (returnValue (some val)).children := mem_singleton_self _
  exact ⟨h.typed.child hm, h.words.child hm, scoped_mk.mp h.inScope val hm⟩

lemma arms {arms : List Node} (h : (Node.mk lbl (.branch arms)).Ready tbl Γ) :
    ∀ arm ∈ arms, arm.Ready tbl Γ ∧ arm.form.isArm = true :=
  fun arm hm => ⟨⟨h.typed.child hm, h.words.child hm, scoped_mk.mp h.inScope arm hm⟩, h.typed.rule.1 arm hm⟩

end Node.Ready

lemma HalfArm.body_ready {outer : Surroundings} {dynamic : Bool}
    {arms : List Node} {halves : List HalfArm}
    (h : VisitsConditions env outer dynamic pre arms after halves)
    (harms : ∀ arm ∈ arms, arm.Ready env.symbols Γ ∧ arm.form.isArm = true) :
    ∀ half ∈ halves, half.body.Ready env.symbols Γ := by
  intro half hm
  obtain ⟨lbl, cond?, ha⟩ := h.body_mem half hm
  exact (harms _ ha).1.arm.2.1

/-- A statement that never ends normally leaves nothing to say about what is behind it. -/
lemma Flows.reachable (h : Flows pre seen after) (ht : seen.Typed tbl) (hs : seen.form.isStatement = true)
    {k : Nat} {last : Store} (hrun : seen.run sem tbl k σ = some (.normal, last)) :
    after.unreachable = false := by
  have harm : seen.form.isArm = false := by
    revert hs
    cases seen.form <;> simp [isStatement, isArm]
  rw [h.ends]
  exact allows_of_run ht harm hrun

variable (sem)

mutual

theorem Visits.sameRun {Γ outer pre node after seen} : Visits env outer pre node after seen →
    ReturnsWord env.symbols res outer.function? → pre.Typed env.symbols → node.Ready env.symbols Γ →
    pre.unreachable = false → ∀ σ, pre.Hold env.symbols Γ σ → SameRun sem env.symbols Γ σ node seen after
  | .relabel visit alike, ho, hb, hn, hu, σ, hold => by
    have ih := visit.sameRun ho hb hn hu σ hold
    exact ⟨alike.alike.run_eq ▸ ih.run_eq, ih.holds⟩
  | h@.immediate, ho, hb, hn, _, _, hold
  | h@.var, ho, hb, hn, _, _, hold
  | h@(.known ..), ho, hb, hn, _, _, hold
  | h@(.swizzle _), ho, hb, hn, _, _, hold
  | h@(.step ..), ho, hb, hn, _, _, hold
  | h@(.foldStep ..), ho, hb, hn, _, _, hold
  | h@(.unary ..), ho, hb, hn, _, _, hold
  | h@(.cancel ..), ho, hb, hn, _, _, hold
  | h@(.foldUnary ..), ho, hb, hn, _, _, hold
  | h@(.operation ..), ho, hb, hn, _, _, hold
  | h@(.logical ..), ho, hb, hn, _, _, hold
  | h@(.assign ..), ho, hb, hn, _, _, hold
  | h@(.call ..), ho, hb, hn, _, _, hold
  | h@(.foldCall ..), ho, hb, hn, _, _, hold => .of_visits h ho hb hn rfl hold
  | .declare, _, _, _, _, σ, hold => by
    refine ⟨fun k => rfl, fun {k last} hrun => ?_⟩
    rw [run_declare] at hrun
    cases hrun
    exact .forget_mem hold
  | .define visit coerces, ho, hb, hn, _, σ, hold => by
    obtain ⟨-, -, -, hinitializer⟩ := hn.typed.rule
    obtain ⟨he, htype⟩ := hinitializer _ rfl
    have hval := hn.child_of_declare
    obtain ⟨hvis, hafter⟩ := visit.preserved ho.toReturnsType hb hval.typed
    rw [hvis.coerced_eq he htype coerces]
    exact .define hn hafter (Visits.sameValue sem visit ho hb hval he σ hold)
  | .returnNothing _ _, _, _, _, _, _, _ => by
    refine ⟨fun k => rfl, fun {k last} hrun => ?_⟩
    rw [run_return] at hrun
    cases hrun
  | .returnValue inFunction isVoid visit coerces, ho, hb, hn, _, σ, hold => by
    have hval := hn.child_of_return
    have he := hn.typed.rule _ rfl
    obtain ⟨hvis, -⟩ := visit.preserved ho.toReturnsType hb hval.typed
    have hword : res.IsWord := ho.words.resolve_right (by rw [← ho.type_eq _ inFunction, isVoid]; simp)
    have htype := (Node.Everywhere.here (hvis.words ho.words hval.words)).1 (hvis.isExpression_eq.trans he)
    rw [ho.type_eq _ inFunction] at coerces
    rw [eq_of_coerced? (htype.imp_right And.right) hword coerces]
    exact .returnValue (Visits.sameValue sem visit ho hb hval he σ hold)
  | .breakLoop _, _, _, _, _, _, _ => by
    refine ⟨fun k => rfl, fun {k last} hrun => ?_⟩
    rw [run_break] at hrun
    cases hrun
  | .continueLoop _, _, _, _, _, _, _ => by
    refine ⟨fun k => rfl, fun {k last} hrun => ?_⟩
    rw [run_continue] at hrun
    cases hrun
  | .block visit, ho, hb, hn, hu, σ, hold => by
    have ih := visit.sameRuns ho hb
      (fun node hm => ⟨hn.typed.child hm, hn.words.child hm⟩) (scoped_mk.mp hn.inScope) hu σ hold
    split
    · exact .block ih
    · exact .fewer (.block ih) (.forgetAll _ _)
  | .branch visitConds visitBodies, ho, hb, hn, hu, σ, hold => by
    have harms := hn.arms
    have hbodies := fun half hm => HalfArm.body_ready visitConds harms half hm
    have hmid := (visitConds.preserved ho.toReturnsType hb fun arm hm => (harms arm hm).1.typed).facts
    obtain ⟨htaken, hholds⟩ := visitConds.sameConditions ho hb (fun arm hm => (harms arm hm).1) σ hold
    have ihBodies := visitBodies.sameBodies ho hmid hbodies _ hholds
    have hfewer := visitBodies.fewer fun half hm => (hbodies half hm).inScope
    exact .branch htaken ihBodies (hholds.fewer hfewer)
  | .noArm _ visitConds, ho, hb, hn, hu, σ, hold => by
    obtain ⟨htaken, hholds⟩ := visitConds.sameConditions ho hb (fun arm hm => (hn.arms arm hm).1) σ hold
    rw [← htaken] at hholds
    exact .noArm htaken.symm hholds
  | .onlyArm _ visitConds visitBody, ho, hb, hn, hu, σ, hold => by
    have htyped := fun arm hm => (hn.arms arm hm).1.typed
    have hh := visitConds.preserved ho.toReturnsType hb htyped
    obtain ⟨htaken, hholds⟩ := visitConds.sameConditions ho hb (fun arm hm => (hn.arms arm hm).1) σ hold
    have hbody := HalfArm.body_ready visitConds hn.arms _ (.head _)
    rw [← htaken] at hholds
    exact .onlyArm htaken.symm (visitBody.sameRun ho hh.facts hbody (hh.sameFlow hu).2 σ hholds)
  | .removeLoop visitInit visitCond _ hfalse isPretest, ho, hb, hn, hu, σ, hold => by
    obtain ⟨hinits, hconds, -, -, -⟩ := hn.loop
    obtain ⟨hcond, he⟩ := hconds _ (.head _)
    have hmid := (visitInit.preserved ho.toReturnsType hb hn.typed.loop_flow.1).2
    obtain ⟨hruns, hin⟩ := visitInit.sameRuns ho hb (fun node hm => (hinits node hm).1)
      Option.length_toList_le hu σ hold
    simp only [← getD_initExports] at hin
    exact .removeLoop hruns hin hn isPretest hfalse fun σ hold =>
      Visits.sameValue sem visitCond ho (hmid.forgetAll _) hcond he σ (hold.fewer (.forgetAll _ _))
  | .loop visitInit visitCond keeps visitBody visitStep, ho, hb, hn, hu, σ, hold => by
    obtain ⟨hinits, hconds, hsteps, hbody, -⟩ := hn.loop
    have hinitFacts := (visitInit.preserved ho.toReturnsType hb hn.typed.loop_flow.1).2
    have hcondFacts := (visitCond.preserved ho.toReturnsType (hinitFacts.forgetAll _)
      fun node hm => ⟨(hconds node hm).1.typed, .expression (hconds node hm).2⟩).2
    have hbodyFacts := (visitBody.preserved ho.toReturnsType hcondFacts hbody.typed).2
    have hstepVisited := (visitStep.preserved ho.toReturnsType hbodyFacts
      fun node hm => ⟨(hsteps node hm).1.typed, .expression (hsteps node hm).2⟩).1
    have hfewerCondition := visitCond.fewer rfl fun node hm => (hconds node hm).1.inScope
    have hfewerVisited := visitBody.fewer rfl hbody.inScope
    have hfewerBody := hfewerCondition.trans hfewerVisited
    have hfewerStepped := visitStep.fewer rfl fun node hm => (hsteps node hm).1.inScope
    have hfewerStep := hfewerBody.trans hfewerStepped
    obtain ⟨hruns, hin⟩ := visitInit.sameRuns ho hb (fun node hm => (hinits node hm).1)
      Option.length_toList_le hu σ hold
    simp only [← getD_initExports] at hin
    refine .loop hruns hin hn hinitFacts (keeps.imp_right And.right) (fun σ hold => ⟨?_, ?_, ?_⟩)
      (fun node hm => ?_) hfewerStep
    · exact (VisitsAll.sameValues sem visitCond ho rfl (hinitFacts.forgetAll _) hconds σ hold).1
    · exact (visitBody.sameRun ho hcondFacts hbody rfl σ (hold.fewer hfewerCondition)).run_eq
    · exact (visitStep.sameRuns ho hbodyFacts (fun node hm => (hsteps node hm).1)
        Option.length_toList_le rfl σ (hold.fewer hfewerBody)).1
    · obtain ⟨step, hstep, hkept⟩ := exists_of_mem_forall₂ hstepVisited hm
      rw [hkept.isExpression_eq]
      exact (hsteps step hstep).2

theorem VisitsAll.sameRuns {Γ outer pre nodes after seen} :
    VisitsAll env outer pre nodes after seen → ReturnsWord env.symbols res outer.function? →
    pre.Typed env.symbols → (∀ node ∈ nodes, node.Ready env.symbols Γ) → nodes.length ≤ 1 →
    pre.unreachable = false → ∀ σ, pre.Hold env.symbols Γ σ →
      (∀ k, Meaning.sequence (seen.map (·.run sem env.symbols)) k σ =
        Meaning.sequence (nodes.map (·.run sem env.symbols)) k σ) ∧
      ∀ {k last}, Meaning.sequence (nodes.map (·.run sem env.symbols)) k σ =
        some (.normal, last) → after.Hold env.symbols (nodes.flatMap (·.initExports) ++ Γ) last
  | .nil, _, _, _, _, _, σ, hold => by
    refine ⟨fun k => rfl, fun {k last} hrun => ?_⟩
    cases hrun
    exact hold
  | .cons _ (.cons _ _), _, _, _, hl, _, _, _ => by simp at hl
  | .cons visit .nil, ho, hb, hn, _, hu, σ, hold => by
    have ih := visit.sameRun ho hb (hn _ (.head _)) hu σ hold
    simp only [map_singleton, sequence_singleton, flatMap_singleton]
    exact ⟨ih.run_eq, ih.holds⟩

theorem VisitsStatements.sameRuns {Γ outer pre nodes after kept declared} :
    VisitsStatements env outer pre nodes after kept declared →
    ReturnsWord env.symbols res outer.function? → pre.Typed env.symbols →
    (∀ node ∈ nodes, node.Typed env.symbols ∧ node.Words env.symbols) → Node.ScopedAll env.symbols Γ nodes →
    pre.unreachable = false → ∀ σ, pre.Hold env.symbols Γ σ → SameRuns sem env.symbols Γ σ nodes kept after
  | .nil, _, _, _, _, _, σ, hold => by
    refine ⟨fun k => rfl, fun {k last} hrun => ?_⟩
    cases hrun
    exact hold
  | .unreachable unreachable, _, _, _, _, hu, _, _ => by
    rw [unreachable] at hu
    cases hu
  | .drop _ visit isEmpty visitRest, ho, hb, hn, hs, hu, σ, hold => by
    obtain ⟨ht, hw⟩ := hn _ (.head _)
    have hvis := visit.preserved ho.toReturnsType hb ht
    refine .drop isEmpty.2 (.keep (visit.sameRun ho hb ⟨ht, hw, hs.1⟩ hu σ hold) fun hrun hlast => ?_)
    exact visitRest.sameRuns ho hvis.facts (forall_mem_cons.mp hn).2 hs.2
      ((hvis.reached hu).reachable hvis.typed hvis.isStatement hrun) _ hlast
  | .keep _ visit visitRest, ho, hb, hn, hs, hu, σ, hold => by
    obtain ⟨ht, hw⟩ := hn _ (.head _)
    have hvis := visit.preserved ho.toReturnsType hb ht
    refine .keep (visit.sameRun ho hb ⟨ht, hw, hs.1⟩ hu σ hold) fun hrun hlast => ?_
    exact visitRest.sameRuns ho hvis.facts (forall_mem_cons.mp hn).2 hs.2
      ((hvis.reached hu).reachable hvis.typed hvis.isStatement hrun) _ hlast

theorem VisitsConditions.sameConditions {Γ outer dynamic pre arms after halves} :
    VisitsConditions env outer dynamic pre arms after halves →
    ReturnsWord env.symbols res outer.function? → pre.Typed env.symbols →
    (∀ arm ∈ arms, arm.Ready env.symbols Γ) → ∀ σ, pre.Hold env.symbols Γ σ →
      HalfArm.taken sem env.symbols halves σ = taken sem env.symbols arms σ ∧
      after.Hold env.symbols Γ (taken sem env.symbols arms σ).2
  | .nil, _, _, _, _, hold | .otherwise, _, _, _, _, hold => ⟨rfl, hold⟩
  | .never visit hfalse visitRest, ho, hb, hn, σ, hold => by
    obtain ⟨hcond, he⟩ := (hn _ (.head _)).arm.1 _ rfl
    have hmid := (visit.preserved ho.toReturnsType hb hcond.typed).2
    have ih := Visits.sameValue sem visit ho hb hcond he σ hold
    have hval := ih.eq
    rw [value_of_literalCondition? hfalse.2] at hval
    have hholds := ih.holds
    rw [← hval] at hholds
    rw [taken_cons, ← hval]
    exact visitRest.sameConditions ho hmid (forall_mem_cons.mp hn).2 σ hholds
  | .always visit htrue, ho, hb, hn, σ, hold => by
    obtain ⟨hcond, he⟩ := (hn _ (.head _)).arm.1 _ rfl
    have ih := Visits.sameValue sem visit ho hb hcond he σ hold
    have hval := ih.eq
    rw [value_of_literalCondition? htrue.2] at hval
    have hholds := ih.holds
    rw [← hval] at hholds
    rw [taken_cons, ← hval]
    exact ⟨rfl, hholds⟩
  | .sometimes visit visitRest, ho, hb, hn, σ, hold => by
    obtain ⟨hcond, he⟩ := (hn _ (.head _)).arm.1 _ rfl
    have hrest := (forall_mem_cons.mp hn).2
    have hmid := (visit.preserved ho.toReturnsType hb hcond.typed).2
    have ih := Visits.sameValue sem visit ho hb hcond he σ hold
    have hfewer := visitRest.fewer (Bool.or_true _) fun arm hm => (hrest arm hm).inScope
    rw [taken_cons, HalfArm.taken_cons, ih.eq]
    split
    -- The conditions behind the one that holds are not tested.
    · exact ⟨rfl, ih.holds.fewer hfewer⟩
    · exact visitRest.sameConditions ho hmid hrest _ ih.holds

theorem VisitsBodies.sameBodies {Γ outer hasDefault allUnreachable pre halves after seen unreachable} :
    VisitsBodies env outer hasDefault allUnreachable pre halves after seen unreachable →
    ReturnsWord env.symbols res outer.function? → pre.Typed env.symbols →
    (∀ half ∈ halves, half.body.Ready env.symbols Γ) → ∀ σ, pre.Hold env.symbols Γ σ →
      List.Forall₂ (HalfArm.SameArm sem env.symbols Γ σ after) halves seen
  | .nil, _, _, _, _, _ => .nil
  | .cons visit visitRest, ho, hb, hn, σ, hold => by
    have hbody := hn _ (.head _)
    have hrest := (forall_mem_cons.mp hn).2
    have hmid := (visit.preserved ho.toReturnsType hb hbody.typed).2
    have ih := visit.sameRun ho hb hbody rfl σ hold
    have hfewer := visit.fewer rfl hbody.inScope
    have hfewerRest := visitRest.fewer fun half hm => (hrest half hm).inScope
    refine .cons ⟨_, rfl, fun k => ⟨ih.run_eq k, fun last hrun => ?_⟩⟩
      (visitRest.sameBodies ho hmid hrest σ (hold.fewer hfewer))
    exact ((ih.holds hrun).mono fun sym hm => mem_append_right _ hm).fewer hfewerRest

end

end Shading
