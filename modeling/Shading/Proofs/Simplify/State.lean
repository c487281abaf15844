import Shading.Proofs.Monad
import Shading.Proofs.Simplify.Visits
import Shading.Proofs.Tree.Links

/-!
# What the actions of the pass do

`TreePass.Acts plain old before action new good` is about an action of the pass
that starts where `before` is known.  If it succeeds, it puts the nodes `new` in
the place of the nodes `old` (`Rebuilt`), and `good` holds of its result and of
what is known behind it.  If it fails, the error stands at a span of the old
nodes.  There is one rule for each action; most visits rewrite the children of a
node one after the other (`Acts.inside`).
-/

namespace Shading

open List

/-- What the pass knows, without its counters. -/
def SimplifyState.facts {σ : Type} (st : SimplifyState σ) : Facts :=
  ⟨st.constants, st.loops, st.unreachable⟩

namespace TreePass

variable {α β γ : Type} {plain : Prop} {pre : Facts} {st : SimplifyState Nat}

/-- How an action ends.  A plain one adds no summary. -/
def Ends (plain : Prop) (st : SimplifyState Nat) (old : List Node) (new : α → List Node)
    (good : α → Facts → Prop) : Except SimplifyError α × SimplifyState Nat → Prop
  | (.ok a, later) => Rebuilt st.nodes later.nodes old (new a) ∧ good a later.facts ∧
    (plain → later.summaries = st.summaries)
  | (.error error, _) => ∀ ⦃allowed : Span → Prop⦄, (∀ node ∈ old, node.Spanned allowed) →
    allowed error.span

/-- An action puts nodes in the place of others. -/
def Acts (plain : Prop) (old : List Node) (before : Facts) (action : TreePass α) (new : α → List Node)
    (good : α → Facts → Prop) : Prop :=
  ∀ ⦃st⦄, st.facts = before → Ends plain st old new good (action.run.run st)

lemma Ends.since {mid : SimplifyState Nat} {old other : List Node} {new : α → List Node}
    {good : α → Facts → Prop}
    {res : Except SimplifyError α × SimplifyState Nat} (h : Ends plain mid old new good res)
    (hr : Rebuilt st.nodes mid.nodes other old)
    (hsums : plain → mid.summaries = st.summaries) : Ends plain st other new good res := by
  obtain ⟨outcome, later⟩ := res
  cases outcome with
  | ok a => exact ⟨hr.trans h.1, h.2.1, fun hp => (h.2.2 hp).trans (hsums hp)⟩
  | error error => exact fun _ hs => h (hr.spanned hs)

namespace Acts

variable {old other : List Node} {x : TreePass α} {f : α → TreePass β} {mid : α → List Node}
  {new : β → List Node}
  {found : α → Facts → Prop} {good : β → Facts → Prop} {lbl : Label} {form : Form Node} {span : Span}

lemma pure {a : α} (h : ∀ low, Rebuilt low low old (mid a)) (hfound : found a pre) :
    Acts plain old pre (Pure.pure a) mid found := by
  rintro st rfl
  exact ⟨h _, hfound, fun _ => rfl⟩

/-- The nodes are given back as they are. -/
lemma same {a : α} (h : mid a = old) (hfound : found a pre) : Acts plain old pre (Pure.pure a) mid found :=
  pure (fun low => h ▸ .refl low _) hfound

lemma fail (h : span ∈ old.map Node.span) (fault : SimplifyFault) :
    Acts plain old pre (Simplify.fail span fault) mid found := by
  obtain ⟨node, hn, rfl⟩ := mem_map.mp h
  exact fun _ _ _ hs => (hs node hn).span

lemma bind (hx : Acts plain old pre x mid found) (hf : ∀ a facts, found a facts →
    Acts plain (mid a) facts (f a) new good) : Acts plain old pre (x >>= f) new good := by
  intro st hs
  have hfirst := hx hs
  cases hrun : x.run.run st with
  | mk res later =>
    rw [hrun] at hfirst
    cases res with
    | error error =>
      rw [ExceptT.run_bind_of_error hrun]
      exact hfirst
    | ok a =>
      rw [ExceptT.run_bind_of_ok hrun]
      exact (hf a later.facts hfirst.2.1 rfl).since hfirst.1 hfirst.2.2

lemma mono {fewer : Prop} {weaker : α → Facts → Prop} (hx : Acts plain old pre x mid found) (hp : fewer → plain)
    (h : ∀ a facts, found a facts → weaker a facts) : Acts fewer old pre x mid weaker := by
  intro st hs
  have hends := hx hs
  generalize x.run.run st = res at hends
  obtain ⟨outcome, later⟩ := res
  cases outcome with
  | ok a => exact ⟨hends.1, h a _ hends.2.1, fun hfewer => hends.2.2 (hp hfewer)⟩
  | error error => exact hends

lemma imp {weaker : α → Facts → Prop} (hx : Acts plain old pre x mid found) (h : ∀ a facts, found a facts →
    weaker a facts) : Acts plain old pre x mid weaker := hx.mono id h

lemma seq {after : Facts} {x : TreePass Unit} {f : Unit → TreePass β}
    (hx : Acts plain old pre x (fun _ => old) fun _ facts => facts = after)
    (hf : Acts plain old after (f ()) new good) : Acts plain old pre (x >>= f) new good := by
  refine hx.bind ?_
  rintro _ _ rfl
  exact hf

/-- The nodes change before the action. -/
lemma of_rebuilt (h : ∀ low, Rebuilt low low old other) (hx : Acts plain other pre x mid found) :
    Acts plain old pre x mid found :=
  fun _ hs => (hx hs).since (h _) fun _ => rfl

lemma fresh {between : Nat → List Node} {g : NodeId → TreePass β}
    (h : ∀ low, Rebuilt low (low + 1) old (between low))
    (hg : ∀ low, Acts plain (between low) pre (g ⟨low⟩) new good) : Acts plain old pre (freshId >>= g) new good :=
  fun st hs => (@hg st.nodes { st with nodes := st.nodes + 1 } hs).since (h st.nodes) fun _ => rfl

lemma frame (hx : Acts plain old pre x mid found) (first last : List Node) :
    Acts plain (first ++ old ++ last) pre x (fun a => first ++ mid a ++ last) found := by
  intro st hs
  have hends := hx hs
  generalize x.run.run st = res at hends
  obtain ⟨outcome, later⟩ := res
  cases outcome with
  | ok a => exact ⟨hends.1.frame first last, hends.2⟩
  | error error => exact fun _ hs => hends fun node hm => hs node (mem_append_left _ (mem_append_right _ hm))

/-- Some children of a node are rewritten where they stand. -/
lemma inside (shape : α → Form Node) (first last : List Node) (hx : Acts plain old pre x mid found)
    (hform : form.children = first ++ old ++ last) (hshape : ∀ a, (shape a).children = first ++ mid a ++ last) :
    Acts plain [.mk lbl form] pre x (fun a => [.mk lbl (shape a)]) found := by
  intro st hs
  have hends := hx.frame first last hs
  generalize x.run.run st = res at hends
  obtain ⟨outcome, later⟩ := res
  cases outcome with
  | ok a => exact ⟨.node rfl rfl rfl (by rw [hform, hshape]; exact hends.1), hends.2⟩
  | error error => exact fun _ hs => hends fun node hm => (hs _ (.head _)).child (hform ▸ hm)

lemma mapM_cons {first : γ} {rest : List γ} {node : Node} {found : Node → Facts → Prop}
    {good : List Node → Facts → Prop}
    {g : γ → TreePass Node} (hx : Acts plain [node] pre (g first) (fun res => [res]) found)
    (hxs : ∀ a facts, found a facts → Acts plain other facts (rest.mapM g) (fun res => res) fun more after =>
      good (a :: more) after) :
    Acts plain (node :: other) pre ((first :: rest).mapM g) (fun res => res) good := by
  rw [List.mapM_cons]
  refine (hx.frame [] other).bind fun a facts hfound => ?_
  have hothers := (hxs a facts hfound).frame [a] []
  simp only [append_nil] at hothers
  exact hothers.bind fun more _ hgood => .same rfl hgood

/-! ## Parts that look at the state or change it -/

lemma read {f : SimplifyState Nat → TreePass β}
    (hf : ∀ st, st.facts = pre → Acts plain old pre (f st) new good) :
    Acts plain old pre (get >>= f) new good := fun st hs => hf st hs hs

lemma isUnreachable {f : Bool → TreePass β} (hf : Acts plain old pre (f pre.unreachable) new good) :
    Acts plain old pre (Simplify.isUnreachable >>= f) new good := by
  rintro st rfl
  exact hf rfl

lemma known {sym : SymbolId} {f : Option Value → TreePass β}
    (hf : Acts plain old pre (f (pre.lookup sym)) new good) :
    Acts plain old pre (Simplify.known? sym >>= f) new good := by
  rintro st rfl
  exact hf rfl

lemma change {g : SimplifyState Nat → SimplifyState Nat} {after : Facts}
    (h : ∀ st, st.facts = pre → (g st).facts = after)
    (hnodes : ∀ st, (g st).nodes = st.nodes) (hsums : plain → ∀ st, (g st).summaries = st.summaries) :
    Acts plain old pre (modify g) (fun _ => old) fun _ facts => facts = after := by
  intro st hs
  refine (⟨?_, h st hs, fun hp => hsums hp st⟩ : Rebuilt st.nodes (g st).nodes old old ∧ (g st).facts = after ∧
    (plain → (g st).summaries = st.summaries))
  rw [hnodes]
  exact .refl _ _

lemma countChange : Acts plain old pre Simplify.countChange (fun _ => old) fun _ after => after = pre :=
  change (fun _ hs => hs) (fun _ => rfl) fun _ _ => rfl

lemma setUnreachable (unreachable : Bool) : Acts plain old pre (Simplify.setUnreachable unreachable) (fun _ => old)
    fun _ after => after = pre.setUnreachable unreachable :=
  change (fun _ hs => hs ▸ rfl) (fun _ => rfl) fun _ _ => rfl

lemma forget (sym : SymbolId) : Acts plain old pre (Simplify.forget sym) (fun _ => old) fun _ after =>
    after = pre.forget sym :=
  change (fun _ hs => hs ▸ rfl) (fun _ => rfl) fun _ _ => rfl

lemma forgetAll (names : List SymbolId) :
    Acts plain old pre (Simplify.forgetAll names) (fun _ => old) fun _ after => after = pre.forgetAll names := by
  induction names generalizing pre with
  | nil => exact .same rfl rfl
  | cons sym rest ih => exact (forget sym).seq ih

lemma recordAssignment (env : SimplifyEnv) (conditional : Bool) (sym : SymbolId) (value? : Option Value) :
    Acts plain old pre (Simplify.recordAssignment env conditional sym value?) (fun _ => old)
      fun _ after => after = pre.record env conditional sym value? := by
  cases value? with
  | none => exact forget sym
  | some val =>
    rw [Simplify.recordAssignment, Facts.record]
    split
    · refine (forget sym).seq (change (fun _ hs => ?_) (fun _ => rfl) fun _ _ => rfl)
      exact congrArg (fun facts : Facts => { facts with constants := (sym, val) :: facts.constants }) hs
    · exact forget sym

lemma openLoop : Acts plain old pre Simplify.openLoop (fun _ => old) fun _ after => after = pre.openLoop :=
  change (fun _ hs => hs ▸ rfl) (fun _ => rfl) fun _ _ => rfl

lemma closeLoop : Acts plain old pre Simplify.closeLoop (fun _ => old) fun exits after => exits = pre.exits ∧
    after = pre.closeLoop := by
  rintro st rfl
  exact ⟨.refl _ _, ⟨rfl, rfl⟩, fun _ => rfl⟩

lemma jump (h : span ∈ old.map Node.span) {keyword : String} {note : LoopExits → LoopExits} :
    Acts plain old pre (Simplify.jump span keyword note) (fun _ => old) fun _ after => ∃ exits rest,
    pre.loops = exits :: rest ∧ after = { pre with loops := note exits :: rest, unreachable := true } := by
  refine read ?_
  rintro st rfl
  split
  · exact fail h _
  · rename_i exits rest hloops
    refine imp (change (fun _ hs => ?_) (fun _ => rfl) fun _ _ => rfl) fun _ _ hafter => ⟨exits, rest,
      hloops, hafter⟩
    exact congrArg (fun facts : Facts => { facts with loops := note exits :: rest, unreachable := true }) hs

end Acts

end TreePass

lemma Node.Alike.ofValue (node : Node) (val : Value) : (Node.ofValue val).Alike (node.toImmediate val) :=
  toImmediate node val rfl

namespace TreePass

variable {env : SimplifyEnv} {plain : Prop} {pre : Facts} {lbl : Label}

/-- Literals are converted only where values are folded. -/
lemma fold_of_coercion {fold : Bool} {opd : Operand} {tgt : ValueType} {val : Value}
    (h : coercion fold opd tgt = .literal val) : fold = true := by
  rw [coercion] at h
  cases fold with
  | true => rfl
  | false =>
    simp only [Bool.false_and, Bool.false_eq_true, if_false] at h
    split at h
    · cases h
    · split at h <;> cases h

lemma coerce_acts (node : Node) (tgt : ValueType) : Acts plain [node] pre (coerce env node tgt)
    (fun res => [res]) fun res after =>
    after = pre ∧ ∃ coerced, node.coerced? env tgt = some coerced ∧ coerced.Near env.options.fold res := by
  rw [coerce]
  split
  · rename_i hcoercion
    exact .same rfl ⟨rfl, _, by simp only [Node.coerced?, hcoercion], rfl⟩
  · rename_i val hcoercion
    exact .pure (fun _ => .toImmediate node val) ⟨rfl, .ofValue val, by simp only [Node.coerced?, hcoercion],
      .of_alike (.ofValue node val) (fold_of_coercion hcoercion)⟩
  · rename_i hcoercion
    exact .fresh (fun low => .wrapInCast node low tgt) fun low =>
      .same rfl ⟨rfl, _, by simp only [Node.coerced?, hcoercion], .wrapInCast node ⟨low⟩ tgt⟩
  · exact .fail (.head _) _

lemma carryOut_acts (op : BinaryOp) (lhs rhs : Node) (reduction : Reduction) {fold : Bool}
    (h : reduction = .keep ∨ fold = true) :
    Acts plain [.mk lbl (.binary op lhs rhs)] pre (carryOut (.mk lbl (.binary op lhs rhs)) lhs rhs reduction)
    (fun res => [res])
      fun res after => after = pre ∧ (reduction.result (.mk lbl (.binary op lhs rhs)) lhs rhs).Near fold res := by
  match reduction with
  | .keep => exact .same rfl ⟨rfl, rfl⟩
  | .literal val =>
    exact .seq .countChange (.pure (fun _ => .toImmediate _ val) ⟨rfl,
      .of_alike (.ofValue _ val) (h.resolve_left nofun)⟩)
  | .operand .left =>
    exact .seq .countChange (.pure (fun _ => .replaceByChild (sublist_append_left [lhs] [rhs]))
      ⟨rfl, .of_alike (.replaceBy _ lhs) (h.resolve_left nofun)⟩)
  | .operand .right =>
    exact .seq .countChange (.pure (fun _ => .replaceByChild (sublist_cons_self lhs [rhs]))
      ⟨rfl, .of_alike (.replaceBy _ rhs) (h.resolve_left nofun)⟩)

end TreePass

end Shading
