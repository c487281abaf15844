import Shading.Proofs.Simplify.Typing
import Shading.Proofs.Tree.Flow

/-!
# What the pass knows about control flow

Where the pass says that control does not get past a statement, the simplified
statement ends; the jumps it notes for the open loop are those of the simplified
statement; and no statement is left behind one that ends (`Flows`).
-/

namespace Shading

open Node List

/-- The jumps of a statement are noted with the innermost open loop. -/
def LoopExits.Notes : List LoopExits → LoopExits → List LoopExits → Prop
  | [], new, after => after = [] ∧ new = .never
  | first :: rest, new, after => after = first.or new :: rest

namespace LoopExits.Notes

variable {pre mid after : List LoopExits} {a b : LoopExits}

lemma never (loops : List LoopExits) : Notes loops .never loops := by
  cases loops with
  | nil => exact ⟨rfl, rfl⟩
  | cons first rest => exact congrArg (· :: rest) (or_never first).symm

lemma eq_of_never (h : Notes pre .never after) : after = pre := by
  cases pre with
  | nil => exact h.1
  | cons first rest => exact h.trans (congrArg (· :: rest) (or_never first))

lemma trans (hab : Notes pre a mid) (hbc : Notes mid b after) : Notes pre (a.or b) after := by
  cases pre with
  | nil =>
    obtain ⟨rfl, rfl⟩ := hab
    exact hbc
  | cons first rest =>
    obtain rfl : mid = first.or a :: rest := hab
    exact Eq.trans hbc (congrArg (· :: rest) (or_assoc first a b))

end LoopExits.Notes

namespace Facts

/-- Control gets on, and nothing new is known about the open loops. -/
def SameFlow (before after : Facts) : Prop :=
  before.unreachable = false → after.loops = before.loops ∧ after.unreachable = false

lemma flow_forgetAll (facts : Facts) (names : List SymbolId) :
    (facts.forgetAll names).loops = facts.loops ∧ (facts.forgetAll names).unreachable = facts.unreachable := by
  induction names generalizing facts with
  | nil => exact ⟨rfl, rfl⟩
  | cons sym rest ih => exact ih (facts.forget sym)

namespace SameFlow

variable {a b c : Facts}

lemma refl (facts : Facts) : facts.SameFlow facts := fun hu => ⟨rfl, hu⟩

lemma trans (hab : a.SameFlow b) (hbc : b.SameFlow c) : a.SameFlow c := fun hu =>
  ⟨(hbc (hab hu).2).1.trans (hab hu).1, (hbc (hab hu).2).2⟩

lemma forgetAll (facts : Facts) (names : List SymbolId) : facts.SameFlow (facts.forgetAll names) := fun hu =>
  (flow_forgetAll facts names).imp_right fun h => h.trans hu

lemma record (facts : Facts) (env : SimplifyEnv) (conditional : Bool) (sym : SymbolId) (value? : Option Value) :
    facts.SameFlow (facts.record env conditional sym value?) := by
  unfold Facts.record
  split
  · split <;> exact fun hu => ⟨rfl, hu⟩
  · exact fun hu => ⟨rfl, hu⟩

end SameFlow

end Facts

namespace Node

/-- The empty block neither jumps nor ends. -/
lemma flow_of_isEmpty {node : Node} (h : node.form.isEmpty = true) : node.ends = false ∧ node.exits = .never := by
  obtain ⟨lbl, form⟩ := node
  rw [ends_mk, exits_mk]
  cases form with
  | block stmts => cases stmts <;> first | exact ⟨rfl, rfl⟩ | cases h
  | _ => cases h

lemma Typed.loop_flow {tbl : SymbolTable} {lbl : Label} {kind : LoopKind}
    {init? cond? step? : Option Node} {body : Node}
    (ht : (mk lbl (.loop kind init? cond? step? body)).Typed tbl) :
    (∀ node ∈ init?.toList, node.Typed tbl ∧ node.IsInit) ∧
      (∀ node ∈ cond?.toList, node.Typed tbl ∧ node.form.isExpression = true) ∧
      (∀ node ∈ step?.toList, node.Typed tbl ∧ node.form.isExpression = true) ∧ body.Typed tbl := by
  have hkids := (typed_mk.mp ht).2
  obtain ⟨hinitRule, hconditionRule, hstepRule, -⟩ := ht.rule
  refine ⟨fun node hm => ⟨hkids _ ?_, hinitRule node (Option.mem_toList.mp hm)⟩,
    fun node hm => ⟨hkids _ ?_, (hconditionRule node (Option.mem_toList.mp hm)).1⟩,
    fun node hm => ⟨hkids _ ?_, hstepRule node (Option.mem_toList.mp hm)⟩, hkids _ ?_⟩ <;>
    simp_all [Form.children]

end Node

section

variable {env : SimplifyEnv} {pre mid after : Facts} {seen : Node}

/-- What is known behind a statement about control flow. -/
structure Flows (before : Facts) (visited : Node) (after : Facts) : Prop where
  ends : after.unreachable = visited.ends
  exits : LoopExits.Notes before.loops visited.exits after.loops
  tidy : visited.Tidy

namespace Flows

lemma of_alike {other : Node} (h : Flows pre seen after) (ha : seen.Alike other) : Flows pre other after :=
  ⟨h.ends.trans ha.ends_eq, ha.exits_eq ▸ h.exits, h.tidy.of_alike ha⟩

/-- A part that neither jumps nor ends. -/
lemma of_sameFlow (hs : pre.SameFlow after) (hends : seen.ends = false) (hflow : seen.exits = .never ∧ seen.Tidy)
    (hu : pre.unreachable = false) : Flows pre seen after := by
  obtain ⟨hloops, hreachable⟩ := hs hu
  refine ⟨hreachable.trans hends.symm, ?_, hflow.2⟩
  rw [hflow.1, hloops]
  exact .never _

end Flows

lemma Facts.SameFlow.of_flows (h : pre.unreachable = false → Flows pre seen after) (hends : seen.ends = false)
    (hexits : seen.exits = .never) : pre.SameFlow after := fun hu => by
  refine ⟨?_, (h hu).ends.trans hends⟩
  have := (h hu).exits
  rw [hexits] at this
  exact this.eq_of_never

/-- What is known behind statements in a row. -/
structure StatementsFlow (before : Facts) (kept : List Node) (after : Facts) : Prop where
  ends : after.unreachable = (before.unreachable || kept.any ends)
  exits : LoopExits.Notes before.loops (exitsAll kept) after.loops
  tidy : ∀ node ∈ kept, node.Tidy
  last : ∀ node ∈ kept.dropLast, node.ends = false
  stops : before.unreachable = true → kept = []

/-- What is known behind the bodies of a branch. -/
structure BodiesFlow (hasDefault allUnreachable : Bool) (before : Facts) (arms : List Node) (after : Facts)
    (unreachable : Bool) : Prop where
  ends : unreachable = (allUnreachable && (hasDefault || endsArms arms))
  exits : LoopExits.Notes before.loops (exitsAll arms) after.loops
  tidy : ∀ arm ∈ arms, arm.Tidy

lemma StatementsFlow.cons {first : Node} {kept : List Node}
    (reachable : pre.unreachable = false) (hfirst : Flows pre first mid)
    (hrest : StatementsFlow mid kept after) : StatementsFlow pre (first :: kept) after := by
  refine ⟨?_, hfirst.exits.trans hrest.exits, fun node hm => ?_, fun node hm => ?_, fun h => ?_⟩
  · rw [hrest.ends, hfirst.ends, reachable, Bool.false_or, any_cons]
  · rcases mem_cons.mp hm with rfl | hm
    · exact hfirst.tidy
    · exact hrest.tidy node hm
  · cases kept with
    | nil => cases hm
    | cons second rest =>
      rcases mem_cons.mp hm with rfl | hm
      -- The statements behind one that ends are gone.
      · rw [Bool.eq_false_iff]
        exact fun hends => cons_ne_nil _ _ (hrest.stops (hfirst.ends.trans hends))
      · exact hrest.last node hm
  · rw [reachable] at h
    cases h

variable {res : ValueType}

lemma BodiesFlow.cons {hasDefault allUnreachable unreachable : Bool} {half : HalfArm}
    {seen : Node} {rest : List Node}
    (hcond : ∀ cond ∈ half.condition?, cond.Fits env.symbols res .bool)
    (hbody : Flows (pre.setUnreachable false) seen mid)
    (hrest : BodiesFlow (hasDefault || half.isDefault)
      (if hasDefault then allUnreachable else allUnreachable && mid.unreachable) mid rest after unreachable) :
    BodiesFlow hasDefault allUnreachable pre (.mk half.label (.arm half.condition? seen) :: rest) after
      unreachable := by
  have harm : ∀ cond ∈ half.condition?, cond.exits = .never ∧ cond.Tidy := fun cond hc =>
    exits_tidy_of_isExpression (hcond cond hc).typed (hcond cond hc).isExpression
  refine ⟨?_, ?_, fun arm hm => ?_⟩
  · have hends : (Node.mk half.label (.arm half.condition? seen)).ends = mid.unreachable := by
      rw [Node.ends_mk, hbody.ends]
    have hdef : (Node.mk half.label (.arm half.condition? seen)).isDefault = half.isDefault := rfl
    rw [hrest.ends, Node.endsArms, hends, hdef]
    cases hasDefault <;> simp [Bool.and_assoc]
  · have hexits : (Node.mk half.label (.arm half.condition? seen)).exits = seen.exits := by
      rw [Node.exits_mk]
      obtain ⟨lbl, cond?, body⟩ := half
      cases cond? with
      | none => simp [Form.children]
      | some cond => simp [Form.children, (harm cond rfl).1]
    rw [exitsAll_cons, hexits]
    exact LoopExits.Notes.trans hbody.exits hrest.exits
  · rcases mem_cons.mp hm with rfl | hm
    · refine tidy_mk.mpr ⟨trivial, fun kid hc => ?_⟩
      rcases mem_append.mp hc with hc | hc
      · exact (harm kid (Option.mem_toList.mp hc)).2
      · obtain rfl := mem_singleton.mp hc
        exact hbody.tidy
    · exact hrest.tidy arm hm

lemma Flows.nothing (hs : pre.SameFlow after) :
    pre.unreachable = false → Flows pre Node.nothing after :=
  .of_sameFlow hs (by rw [Node.nothing, ends_mk]; rfl) ⟨by rw [Node.nothing, exits_mk]; rfl,
    tidy_mk.mpr ⟨by simp [Form.empty, Node.TidyRule], by simp [Form.empty, Form.children]⟩⟩

/-- A loop that never runs leaves its start. -/
lemma Flows.onlyInit {lbl : Label} {init? visitedInit? : Option Node} (hs : pre.SameFlow after)
    (h : List.Forall₂ (Preserved env.symbols res) init?.toList visitedInit?.toList)
    (hi : ∀ node ∈ init?.toList, node.IsInit) :
    pre.unreachable = false → Flows pre (.onlyInit lbl visitedInit?) after := by
  cases visitedInit? with
  | none => exact .nothing hs
  | some seen =>
    obtain ⟨init, hm, hkept⟩ := exists_of_mem_forall₂ h (mem_singleton_self seen)
    have hinit := hkept.isInit (hi init hm)
    obtain ⟨hexits, htidy⟩ := exits_tidy_of_isInit hkept.typed hinit
    refine .of_sameFlow hs ?_ ⟨?_, Node.tidy_mk.mpr ⟨by simp [Node.TidyRule], forall_mem_singleton.mpr htidy⟩⟩
    · rw [Node.onlyInit, Node.ends_mk]
      simp [Node.ends_of_isInit hinit]
    · rw [Node.onlyInit, Node.exits_mk]
      simp [Form.children, hexits]

end

end Shading
