import Shading.Proofs.Compile
import Shading.Proofs.Ir.Limit
import Shading.Proofs.Lowering.Invariant

/-!
# Compiling under a limit

Lowering reads nothing that depends on the limit of its builder, so what holds
of the operations of a builder holds of lowering, of pruning and of a whole
compile: a tighter limit can only make it run out of memory
(`compile_under_limit`).
-/

namespace Shading

variable {loose? tight? : Option Nat}

namespace Lower

variable {α β : Type}

/-- The result under a limit. -/
def underLimit (limit? : Option Nat) (result : Except LoweringError (α × LoweringState)) :
    Except LoweringError (α × LoweringState) :=
  result.map fun pair => (pair.1, pair.2.under limit?)

/-- Under the tighter of two limits an action is out of memory, or it does what
it does under the other. -/
def Uniform (tight? loose? : Option Nat) (action : Lower α) (st : LoweringState) : Prop :=
  action.run (st.under tight?) = .error (.ir .outOfMemory) ∨
    ∃ result, action.run (st.under tight?) = underLimit tight? result ∧
      action.run (st.under loose?) = underLimit loose? result

variable {st : LoweringState}

namespace Uniform

lemma bind {x : Lower α} {f : α → Lower β} (hx : Uniform tight? loose? x st)
    (hf : ∀ a later, x.run (st.under loose?) = .ok (a, later.under loose?) → Uniform tight? loose? (f a) later) :
    Uniform tight? loose? (x >>= f) st := by
  unfold Uniform
  rw [StateT.run_bind, StateT.run_bind]
  rcases hx with hout | ⟨res, htight, hloose⟩
  · exact .inl (by rw [hout]; rfl)
  · cases res with
    | error error => exact .inr ⟨.error error, by rw [htight]; rfl, by rw [hloose]; rfl⟩
    | ok pair =>
      have hnext := hf pair.1 pair.2 hloose
      rw [htight, hloose]
      exact hnext

lemma build {act : Build α} (h : Tighter tight? loose?) (haction : act.Uniform) :
    Uniform tight? loose? (Lower.build act) st := by
  have hrun (limit? : Option Nat) : (Lower.build act).run (st.under limit?) =
      ofBuild st (act.run.run (st.builder.under limit?)) := by
    rw [build_run]
    change ofBuild (st.under limit?) (act.run.run (st.builder.under limit?)) = _
    rcases act.run.run (st.builder.under limit?) with ⟨_ | _, _⟩ <;> rfl
  unfold Uniform
  rw [hrun, hrun]
  rcases haction tight? loose? st.builder h with ⟨later, hout⟩ | ⟨res, later, htight, hloose⟩
  · exact .inl (by rw [hout, ofBuild])
  · rw [htight, hloose]
    cases res with
    | error error => exact .inr ⟨.error (.ir error), rfl, rfl⟩
    | ok a => exact .inr ⟨.ok (a, { st with builder := later }), rfl, rfl⟩

end Uniform

/-- What is read from the state does not depend on the limit. -/
lemma Made.uniform {may : Span → Prop} {n : Nat} {act : Lower α} {state : LoweringState} (h : Made may n act state)
    (hlimits : Tighter tight? loose?) (hstate : state = st.under loose?) : Uniform tight? loose? act st := by
  induction h generalizing st with
  | mono _ _ ih => exact ih hstate
  | pure a => exact .inr ⟨.ok (a, st), rfl, rfl⟩
  | @throw _ error _ _ _ _ => exact .inr ⟨.error error, rfl, rfl⟩
  | bind _ _ hx hf =>
    subst hstate
    exact .bind (hx rfl) fun a later hrun => hf a _ hrun rfl
  | @read _ f _ _ _ hsame ih =>
    subst hstate
    have hrun (limit? : Option Nat) : (get >>= f : Lower _).run (st.under limit?) = (f (st.under loose?)).run
        (st.under limit?) := by
      rw [← hsame limit?]
      rfl
    unfold Uniform
    rw [hrun, hrun]
    exact ih rfl
  | @update f _ _ _ hsame =>
    subst hstate
    exact .inr ⟨.ok ((), f (st.under loose?)), congrArg (Except.ok ∘ Prod.mk ()) (hsame tight?),
      congrArg (Except.ok ∘ Prod.mk ()) (hsame loose?)⟩
  | build h => exact .build hlimits h.uniform

end Lower

/-! ## Programs -/

/-- Of two results, the first is out of memory or both are the same but for
limits. -/
def SameUnlessOut {ε α : Type} (out : ε) (under : Option Nat → α → α) (tight? loose? : Option Nat)
    (a b : Except ε α) : Prop :=
  a = .error out ∨ ∃ result : Except ε α, a = result.map (under tight?) ∧ b = result.map (under loose?)

lemma Builder.create_under (slots : Nat) (h : Tighter tight? loose?) :
    SameUnlessOut .outOfMemory (fun limit? ir => Builder.under ir limit?) tight? loose?
      (Builder.create slots tight?) (Builder.create slots loose?) := by
  unfold Builder.create
  split
  · exact .inr ⟨.error _, rfl, rfl⟩
  · have haddSlot : Build.Made 1 (do
        let id ← Build.allocRegister .general pointerWidth
        Build.retain id
        modify fun ir => { ir with dataSlots := ir.dataSlots ++ [some id] }) :=
      .bind (n := 0) (.allocRegister _ _) fun id => .skip (.retain id) fun _ => .links fun _ _ => ⟨rfl, rfl, rfl⟩
    have hslots := (Build.Made.repeated (fun _ : Unit => haddSlot) (List.replicate slots ())).uniform
    have hempty (limit? : Option Nat) : Builder.empty limit? = (Builder.empty none).under limit? := rfl
    rw [hempty tight?, hempty loose?]
    rcases hslots tight? loose? (.empty none) h with ⟨later, hout⟩ | ⟨res, later, htight, hloose⟩
    · refine .inl ?_
      dsimp only
      rw [hout]
    · dsimp only
      rw [htight, hloose]
      cases res with
      | error error => exact .inr ⟨.error error, rfl, rfl⟩
      | ok _ => exact .inr ⟨.ok later, rfl, rfl⟩

namespace Program

lemma start_under (h : Tighter tight? loose?) :
    SameUnlessOut .outOfMemory (fun limit? st => LoweringState.under st limit?) tight? loose?
      (LoweringState.start tight?) (LoweringState.start loose?) := by
  unfold LoweringState.start
  rcases Builder.create_under 1 h with hout | ⟨res, htight, hloose⟩
  · exact .inl (by rw [hout])
  rw [htight, hloose]
  cases res with
  | error error => exact .inr ⟨.error error, rfl, rfl⟩
  | ok ir =>
    change SameUnlessOut _ _ _ _ (match Build.initEntry.run.run (ir.under tight?) with | _ => _)
      (match Build.initEntry.run.run (ir.under loose?) with | _ => _)
    rcases Build.Made.initEntry.uniform tight? loose? ir h with ⟨later, hout⟩ | ⟨res, later, htight, hloose⟩
    · exact .inl (by rw [hout])
    rw [htight, hloose]
    cases res with
    | error error => exact .inr ⟨.error error, rfl, rfl⟩
    | ok entry =>
      have hslot (limit? : Option Nat) : (later.under limit?).dataSlot? 0 = later.dataSlot? 0 := rfl
      dsimp only
      rw [hslot, hslot]
      cases later.dataSlot? 0 with
      | none => exact .inr ⟨.error _, rfl, rfl⟩
      | some base => exact .inr ⟨.ok ⟨later, base, entry, false, [], []⟩, rfl, rfl⟩

lemma lower_under (prog : Program) (h : Tighter tight? loose?) :
    SameUnlessOut (.ir .outOfMemory) (fun limit? ir => Builder.under ir limit?) tight? loose?
      (prog.lower tight?) (prog.lower loose?) := by
  unfold lower
  rcases prog.lowering_cases with ⟨-, hrun⟩ | ⟨_, _, _, _, -, hrun⟩ | ⟨fn, body, -, hrun⟩ <;>
    rw [hrun, hrun]
  · exact .inr ⟨.error _, rfl, rfl⟩
  · exact .inr ⟨.error _, rfl, rfl⟩
  rcases start_under h with hout | ⟨res, htight, hloose⟩
  · exact .inl (by rw [hout]; rfl)
  rw [htight, hloose]
  cases res with
  | error error => exact .inr ⟨.error (.ir error), rfl, rfl⟩
  | ok start =>
    have hmade := (Lower.entryBody_moves prog.symbols body.spanned_true (LoweringState.waits_of_start hloose)).1
    rcases hmade.uniform h rfl with hout | ⟨res, htight, hloose⟩
    · exact .inl (congrArg (fun res => (Except.map Prod.snd res).map (·.builder)) hout)
    · refine .inr ⟨res.map (·.2.builder),
        (congrArg (fun res => (Except.map Prod.snd res).map (·.builder)) htight).trans ?_,
        (congrArg (fun res => (Except.map Prod.snd res).map (·.builder)) hloose).trans ?_⟩ <;> cases res <;> rfl

end Program

/-! ## Simplifying -/

namespace SimplifyEnv

/-- The same pass with another limit. -/
def under (env : SimplifyEnv) (limit? : Option Nat) : SimplifyEnv :=
  { env with options := { env.options with limit? } }

end SimplifyEnv

namespace TreePass

variable (env : SimplifyEnv) (limit? : Option Nat) (outer : Surroundings)

lemma visitStatements_under (kept : List Node) (declared : List SymbolId) (stmts : List Pending) :
    visitStatements (env.under limit?) outer kept declared stmts =
      visitStatements env outer kept declared stmts := by
  induction stmts generalizing kept declared with
  | nil => rfl
  | cons kid rest ih =>
    simp only [visitStatements, ih]
    rfl

lemma visitConditions_under (items : List BranchItem) (afterDynamic : Bool) (arms : List PendingArm) :
    visitConditions (env.under limit?) outer items afterDynamic arms =
      visitConditions env outer items afterDynamic arms := by
  induction arms generalizing items afterDynamic with
  | nil => rfl
  | cons arm rest ih =>
    obtain ⟨node, _ | ⟨_ | cond, body⟩⟩ := arm
    · exact ih _ _
    · rfl
    · simp only [visitConditions, ih]
      rfl

/-- The pass does not look at the limit. -/
lemma visitorForm_under : visitorForm (env.under limit?) = visitorForm env := by
  funext own form
  have hvisit : visitForm (env.under limit?) own form = visitForm env own form := by
    funext outer lbl
    unfold visitForm
    split
    case h_3 => simp only [visitBlock, visitStatements_under]
    case h_4 =>
      simp only [visitBranch, visitConditions_under]
      rfl
    all_goals rfl
  unfold visitorForm
  rw [hvisit]

end TreePass

lemma Program.simplify_under (prog : Program) (options : Options) (limit? : Option Nat) :
    prog.simplify { options with limit? } = prog.simplify options := by
  have hvisit (outer : Surroundings) : TreePass.visit ⟨{ options with limit? }, prog.symbols⟩ prog.root outer =
      TreePass.visit ⟨options, prog.symbols⟩ prog.root outer := by
    unfold TreePass.visit
    rw [show TreePass.visitorForm ⟨{ options with limit? }, prog.symbols⟩ = TreePass.visitorForm ⟨options,
      prog.symbols⟩ from TreePass.visitorForm_under ⟨options, prog.symbols⟩ limit?]
  unfold Program.simplify
  dsimp only
  rw [hvisit]

/-! ## Compiles -/

lemma Builder.prune_under (ir : Builder) (h : Tighter tight? loose?) :
    SameUnlessOut .outOfMemory (fun limit? (res : Nat × Builder) => (res.1, res.2.under limit?)) tight? loose?
      (ir.under tight?).prune (ir.under loose?).prune := by
  unfold Builder.prune
  rcases Build.Made.prune.uniform tight? loose? ir h with ⟨later, hout⟩ | ⟨res, later, htight, hloose⟩
  · exact .inl (by rw [hout])
  · rw [htight, hloose]
    cases res with
    | error error => exact .inr ⟨.error error, rfl, rfl⟩
    | ok removed => exact .inr ⟨.ok (removed, later), rfl, rfl⟩

/-- What can be seen of a compilation: the tree, the summaries, the text of
the code and the numbers of live objects and instructions. -/
structure Compilation.View where
  program : Program
  summaries : List FunctionSummary
  text : String
  objects : Nat
  instructions : Nat

def Compilation.view (compilation : Compilation) : Compilation.View :=
  ⟨compilation.program, compilation.summaries, compilation.builder.text (Coloring.terminal.apply false),
    compilation.builder.objects.live, compilation.builder.instructions.live⟩

namespace Outcome

/-- What can be seen of an outcome. -/
def view (outcome : Outcome) : Except CompileError Compilation.View × List Diagnostic :=
  (outcome.result.map Compilation.view, outcome.reported)

/-- The compile failed for want of memory. -/
def RanOut (outcome : Outcome) : Prop := ∃ error, outcome.result = .error error ∧ error.diagnostic.code =
    .outOfMemory

lemma view_done_under (simplified : Simplified) (ir : Builder) (limit? : Option Nat) :
    (done simplified (ir.under limit?)).view = (done simplified ir).view := by
  have htext := ir.text_under limit? (Coloring.terminal.apply false)
  unfold done view Compilation.view Except.map
  dsimp only
  rw [htext]
  rfl

/-- Pruning and what comes of it. -/
lemma ranOut_or_view_pruned_eq (simplified : Simplified) (ir : Builder) (options : Options)
    (h : Tighter tight? loose?) :
    (pruned simplified (ir.under tight?) { options with limit? := tight? }).RanOut ∨
      (pruned simplified (ir.under tight?) { options with limit? := tight? }).view =
        (pruned simplified (ir.under loose?) { options with limit? := loose? }).view := by
  unfold pruned
  dsimp only
  split
  · rcases ir.prune_under h with hout | ⟨res, htight, hloose⟩
    · rw [hout]
      exact .inl ⟨_, rfl, rfl⟩
    · rw [htight, hloose]
      refine .inr ?_
      cases res with
      | error error => rfl
      | ok res =>
        exact (view_done_under simplified res.2 tight?).trans (view_done_under simplified res.2 loose?).symm
  · exact .inr ((view_done_under simplified ir tight?).trans (view_done_under simplified ir loose?).symm)

end Outcome

/-- Of two compiles under two limits, the one under the tighter limit runs out
or shows what the other shows. -/
lemma ranOut_or_view_eq (src : Source) (layout : Layout) (options : Options)
    (h : Tighter tight? loose?) : (compile src layout { options with limit? := tight? }).RanOut ∨
      (compile src layout { options with limit? := tight? }).view =
      (compile src layout { options with limit? := loose? }).view := by
  rw [compile_eq, compile_eq]
  cases Program.parse src layout with
  | error error => exact .inr rfl
  | ok prog =>
    dsimp only
    rw [prog.simplify_under options tight?, prog.simplify_under options loose?]
    cases prog.simplify options with
    | error error => exact .inr rfl
    | ok simplified =>
      dsimp only
      rcases simplified.program.lower_under h with hout | ⟨res, htight, hloose⟩
      · rw [hout]
        exact .inl ⟨_, rfl, rfl⟩
      · rw [htight, hloose]
        cases res with
        | error error => exact .inr rfl
        | ok ir => exact Outcome.ranOut_or_view_pruned_eq simplified ir options h

/-- A limit can only make a compile run out of memory: otherwise the outcome
is the one without a limit, and that under every higher limit. -/
theorem compile_under_limit (source : Source) (layout : Layout) (options : Options) {limit higher : Nat}
    (h : limit ≤ higher) : ((compile source layout { options with limit? := some limit }).RanOut ∨
      (compile source layout { options with limit? := some limit }).view =
        (compile source layout { options with limit? := none }).view) ∧
    (¬ (compile source layout { options with limit? := some limit }).RanOut →
      (compile source layout { options with limit? := some higher }).view =
        (compile source layout { options with limit? := some limit }).view) := by
  refine ⟨ranOut_or_view_eq source layout options (tighter_none _), fun hrest => ?_⟩
  exact ((ranOut_or_view_eq source layout options (tighter_of_le h)).resolve_left hrest).symm

lemma Outcome.not_ranOut_of_ok {outcome : Outcome} (h : outcome.result.toOption.isSome = true) :
    ¬ outcome.RanOut := by
  rintro ⟨error, herror, -⟩
  rw [herror] at h
  cases h

/-- A loop on the way to the result. -/
def Source.countUp :
    Source := ⟨.memory, ("int main() \x7b int i = g; while (i < 9) i += 2; return i; \x7d").toList⟩

theorem compile_under_limit_countUp : 16 ≤ 40 ∧
    ¬ (compile .countUp .twoWords { Options.standard with limit? := some 16 }).RanOut ∧
    (compile .countUp .twoWords { Options.standard with limit? := some 40 }).view =
      (compile .countUp .twoWords { Options.standard with limit? := some 16 }).view := by
  have hrest : ¬ (compile .countUp .twoWords { Options.standard with limit? := some 16 }).RanOut :=
    Outcome.not_ranOut_of_ok (by decide +kernel)
  exact ⟨by decide, hrest, (compile_under_limit .countUp .twoWords .standard (by decide : 16 ≤ 40)).2 hrest⟩

end Shading
