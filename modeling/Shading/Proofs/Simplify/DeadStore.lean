import Shading.Proofs.Simplify.Return

/-!
# Removing dead stores

A body from which dead stores were removed does what it did before: a sweep
leaves two stores that agree but for locals that nothing reads
(`Sweeps.actsAlike`).  A symbol that is still used keeps its declarations
(`Sweeps.mentions`), and every change makes the tree smaller, so that the last
sweep finds nothing to remove (`removed_sweepUpTo`).
-/

namespace Shading

open Node Form
open List hiding map map_map

variable {tbl : SymbolTable} {node : Node} {form : Form Node} {lbl : Label}
  {sem : Interpretation} {uses : List Use} {hidden : SymbolId → Bool}
  {r : Store → Store → Prop} {nodes : List Node} {keep : Node → Bool}

/-! ## Stores that agree -/

/-- The same memory, and the same locals but for hidden ones. -/
structure Store.Agree (hidden : SymbolId → Bool) (a b : Store) : Prop where
  memory : a.memory = b.memory
  locals : ∀ symbol, hidden symbol = false → a.locals symbol = b.locals symbol

namespace Store.Agree

variable {a b c : Store} {sym : SymbolId}

lemma refl (σ : Store) : Agree hidden σ σ := ⟨rfl, fun _ _ => rfl⟩

lemma trans (hab : Agree hidden a b) (hbc : Agree hidden b c) : Agree hidden a c :=
  ⟨hab.memory.trans hbc.memory, fun sym hs => (hab.locals sym hs).trans (hbc.locals sym hs)⟩

lemma readsAlike (h : hidden sym = false) : ReadsAlike tbl (Agree hidden) sym := by
  intro a b hab
  rw [read, read, cell, cell, hab.memory, hab.locals sym h]

lemma writesAlike (sym : SymbolId) : WritesAlike tbl (Agree hidden) sym := by
  intro a b hab val
  rw [write, write, hab.memory]
  split
  · exact ⟨rfl, hab.locals⟩
  · refine ⟨rfl, fun other hother => ?_⟩
    by_cases heq : other = sym
    · simp [heq]
    · simpa [Function.update_of_ne heq] using hab.locals other hother

/-- A store that nothing reads. -/
lemma write (h : Agree hidden a b) (hlocal : (tbl.get sym).isLocal = true) (hs : hidden sym = true) (val : Value) :
    Agree hidden (a.write tbl sym val) b := by
  rw [write_of_isLocal hlocal]
  refine ⟨h.memory, fun other hother => ?_⟩
  have hne : other ≠ sym := fun heq => by rw [heq, hs] at hother; cases hother
  exact (Function.update_of_ne hne ..).trans (h.locals other hother)

end Store.Agree

namespace Node

/-- A tree that reads no hidden local acts alike in stores that agree. -/
lemma respects_agree (h : ∀ use ∈ node.uses .read, use.usage.reads = true → hidden use.symbol = false) :
    node.Respects tbl (Store.Agree hidden) := by
  induction node with
  | mk lbl form ih =>
    refine .mk ?_ fun kid hc => ih kid (mem_children_of_evaluated hc) fun use hu =>
      h use (uses_subset_of_evaluated hc use hu)
    rw [uses_mk] at h
    cases form with
    | var sym => exact Store.Agree.readsAlike (h ⟨sym, .read, lbl.span⟩ (.head _) rfl)
    | declare sym ini? => exact Store.Agree.writesAlike sym
    | unary op opd =>
      intro hstep sym hvar
      obtain ⟨own, form⟩ := opd
      obtain rfl : form = .var sym := eq_var_of_var? hvar
      rw [map, formUses, if_pos hstep, uses_mk] at h
      exact ⟨Store.Agree.readsAlike (h ⟨sym, .readWrite, own.span⟩ (.head _) rfl), Store.Agree.writesAlike sym⟩
    | binary op lhs rhs => exact fun _ sym _ => Store.Agree.writesAlike sym
    | call callee args => exact fun _ a b hab => ⟨hab.memory, fun _ => ⟨rfl, hab.locals⟩⟩
    | _ => exact trivial

end Node

/-! ## Sweeps -/

lemma Node.isTarget_of_targets {type : ValueType} (h : FormRule tbl type form) :
    ∀ tgt ∈ form.targets, tgt.form.IsTarget tbl := by
  intro tgt hm
  cases form with
  | binary op lhs rhs =>
    cases op with
    | assign =>
      obtain rfl := mem_singleton.mp hm
      exact h.2.2.1 rfl
    | _ => cases hm
  | unary op opd =>
    rw [targets] at hm
    split at hm
    · obtain rfl := mem_singleton.mp hm
      exact h.2.1 ‹_›
    · cases hm
  | _ => cases hm

lemma Node.Respects.adopt (h : (Node.mk lbl form).Respects tbl r) (label' : Label) (id : NodeId) :
    (Node.mk label' (Node.adopt id form)).Respects tbl r := by
  cases h with
  | mk own parts =>
    refine .mk (by cases form <;> exact own) fun kid hc => ?_
    rw [Node.adopt, evaluated_map] at hc
    obtain ⟨kid, hm, rfl⟩ := mem_map.mp hc
    cases parts kid hm with
    | mk own parts => exact .mk own parts

/-- A dead statement changes hidden locals only. -/
lemma runsAlike_of_isDeadStatement (ht : node.Typed tbl) (h : isDeadStatement tbl uses node = true) :
    RunsAlike (Store.Agree (isDeadStore tbl uses)) (node.run sem tbl) fun _ σ => some (.normal, σ) := by
  intro k a b hab
  obtain ⟨lbl, form⟩ := node
  unfold isDeadStatement at h
  split at h
  · rename_i sym ini? hform
    obtain rfl : form = .declare sym ini? := hform
    obtain ⟨hfree, hpure⟩ := Bool.and_eq_true_iff.mp h
    cases ini? with
    | none => exact .some ⟨rfl, hab⟩
    | some val =>
      rw [run_define, store_of_isPure (ht.child (.head _)) hpure]
      have hlocal : (tbl.get sym).isLocal = true := by rw [Symbol.isLocal, ht.rule.1]
      refine .some ⟨rfl, hab.write hlocal ?_ _⟩
      rw [isDeadStore, hlocal, (Bool.and_eq_true_iff.mp hfree).1]
      rfl
  · obtain ⟨hexpr, hpure⟩ := Bool.and_eq_true_iff.mp h
    rw [run_expression hexpr]
    exact .some ⟨rfl, (store_of_isPure ht hpure a).symm ▸ hab⟩

lemma sequence_filter_alike {run : Node → Runner} (hkeep : ∀ node ∈ nodes, RunsAlike r (run node) (run node))
    (hdrop : ∀ node ∈ nodes, keep node = false → RunsAlike r (run node) fun _ σ => some (.normal, σ)) :
    RunsAlike r (Meaning.sequence (nodes.map run)) (Meaning.sequence ((nodes.filter keep).map run)) := by
  induction nodes with
  | nil => exact fun _ _ _ hab => .some ⟨rfl, hab⟩
  | cons node rest ih =>
    replace ih := ih (forall_mem_cons.mp hkeep).2 (forall_mem_cons.mp hdrop).2
    cases hk : keep node with
    | true =>
      rw [filter_cons_of_pos hk]
      exact Meaning.sequence_cons_alike (hkeep node (.head _)) ih
    | false =>
      rw [filter_cons_of_neg (by rw [hk]; exact Bool.false_ne_true)]
      exact Meaning.sequence_cons_alike (hdrop node (.head _) hk) ih

namespace Sweeps

variable {swept : Node}

/-- What is swept acts as before, but for what it leaves in locals that nothing
reads. -/
lemma actsAlike (sem : Interpretation) (h : Sweeps tbl uses node swept) (ht : node.Typed tbl)
    (hr : node.Respects tbl (Store.Agree (isDeadStore tbl uses))) :
    swept.Respects tbl (Store.Agree (isDeadStore tbl uses)) ∧
      node.ActsAlike tbl (Store.Agree (isDeadStore tbl uses)) sem swept := by
  induction h with
  | @form lbl pairs children ih =>
    cases hr with
    | mk own parts =>
      have hkid {pair : Node × Node} (hp : pair ∈ pairs.children) : pair.1.Typed tbl :=
        ht.child (mem_children_map.mpr ⟨pair, hp, rfl⟩)
      have hpairs : ∀ pair ∈ pairs.evaluated, pair.2.Respects tbl (Store.Agree (isDeadStore tbl uses)) ∧
          pair.1.ActsAlike tbl (Store.Agree (isDeadStore tbl uses)) sem pair.2 := by
        intro pair hp
        have hm := mem_children_of_evaluated hp
        refine ih pair hm (hkid hm) (parts pair.1 ?_)
        rw [evaluated_map]
        exact mem_map_of_mem hp
      have htgts : ∀ pair ∈ pairs.targets, pair.1.form.var? = pair.2.form.var? := by
        intro pair hp
        have hm := mem_children_of_targets hp
        have htgt := isTarget_of_targets (typed_mk.mp ht).1.2 pair.1 (by rw [targets_map]; exact mem_map_of_mem hp)
        exact (((children pair hm).kept (hkid hm)).standsIn.var? htgt.isSome).symm
      refine ⟨.mk ?_ fun kid hc => ?_, .ofForm rfl own htgts fun pair hp => (hpairs pair hp).2⟩
      · cases pairs with
        | unary op opd =>
          intro hstep sym hvar
          refine own hstep sym ((htgts opd ?_).trans hvar)
          rw [targets, if_pos hstep]
          exact .head _
        | binary op lhs rhs => exact fun _ sym _ => Store.Agree.writesAlike sym
        | _ => exact own
      · rw [evaluated_map] at hc
        obtain ⟨pair, hp, rfl⟩ := mem_map.mp hc
        exact (hpairs pair hp).1
  | @collapse lbl tgt val swept isDead inside ih =>
    cases hr with
    | mk own parts =>
      have hval : val ∈ (binary .assign tgt val).children := .tail _ (.head _)
      obtain ⟨hswept, hsame⟩ := ih (ht.child hval) (parts val (.head _))
      have hexpr := (inside.kept (ht.child hval)).standsIn.isExpression_eq.trans ht.rule.2.1
      have halike : swept.Alike (.mk { lbl with type := swept.type, span := swept.span }
          (adopt lbl.id swept.form)) :=
        .replaceBy (.mk lbl .empty) swept
      have hsto : EvaluatesAlike (Store.Agree (isDeadStore tbl uses))
          ((mk lbl (.binary .assign tgt val)).value sem tbl) (swept.value sem tbl) := by
        intro a b hab
        obtain ⟨hres, hafter⟩ := hsame.value hab
        unfold isDeadTarget at isDead
        split at isDead
        · rename_i sym hform
          rw [value_assign hform]
          exact ⟨hres, hafter.write (Bool.and_eq_true_iff.mp isDead).1 isDead _⟩
        · cases isDead
      refine ⟨?_, ?_⟩
      · obtain ⟨own, form⟩ := swept
        exact hswept.adopt _ _
      · rw [Node.ActsAlike, ← halike.meaning_eq]
        exact Node.ActsAlike.of_value rfl hexpr hsto
  | @statements lbl node nodes inside ih =>
    obtain ⟨hrespects, hbefore⟩ := ih ht hr
    have htyped := (inside.kept ht).typed
    cases hrespects with
    | mk own parts =>
      have hkept : (mk lbl (.block (nodes.filter fun node => !isDeadStatement tbl uses node))).Respects tbl
          (Store.Agree (isDeadStore tbl uses)) := .mk trivial fun kid hc => parts kid (mem_filter.mp hc).1
      refine ⟨hkept.adopt _ _, ?_⟩
      rw [Node.ActsAlike, ← (Node.Alike.adopt lbl _).meaning_eq]
      refine hbefore.trans .refl .trans (Node.ActsAlike.of_run rfl rfl rfl rfl ?_)
      rw [run_block, run_block]
      refine sequence_filter_alike (fun node hm => (parts node hm).alike.run) fun node hm hdead => ?_
      exact runsAlike_of_isDeadStatement (htyped.child hm) (by simpa using hdead)
  | @step lbl node kind init? cond? step body inside isPure ih =>
    obtain ⟨hrespects, hbefore⟩ := ih ht hr
    have htyped := (inside.kept ht).typed
    cases hrespects with
    | mk own parts =>
      have hsub : ∀ kid ∈ (Form.loop kind init? cond? none body).children,
          kid ∈ (Form.loop kind init? cond? (some step) body).children := by
        simp only [Form.children, Option.toList_none, append_nil]
        exact fun kid => mem_append_left _
      have hstep : step ∈ (Form.loop kind init? cond? (some step) body).children := mem_append_right _ (.head _)
      have hkept : (mk lbl (.loop kind init? cond? none body)).Respects tbl (Store.Agree (isDeadStore tbl uses)) :=
        .mk trivial fun kid hc => parts kid (hsub kid hc)
      refine ⟨hkept.adopt _ _, ?_⟩
      rw [Node.ActsAlike, ← (Node.Alike.adopt lbl _).meaning_eq]
      refine hbefore.trans .refl .trans (Node.ActsAlike.of_run rfl rfl rfl rfl ?_)
      rw [run_loop, run_loop]
      refine Meaning.sequence_cons_alike (Meaning.sequence_alike fun init hi => (parts init ?_).alike.run)
        (Meaning.sequence_cons_alike (Meaning.loop_alike (parts body ?_).alike.run (fun a b hab => ?_)
          (fun a b hab => Meaning.test_alike ?_ hab) kind) fun _ _ _ hab => .some ⟨rfl, hab⟩)
      · simp_all [Form.evaluated, Form.children]
      · simp [Form.evaluated, Form.children]
      · have hsame : Meaning.advance ((some step).map (·.value sem tbl)) a = a :=
          store_of_isPure (htyped.child hstep) isPure a
        rw [hsame]
        exact hab
      · cases cond? with
        | none => exact .none
        | some cond => exact .some (parts cond (by simp [Form.evaluated, Form.children])).alike.value

end Sweeps

/-! ## Sizes -/

lemma Form.sum_add_le {α : Type} {f g h : α → Nat} {form : Form α}
    (hle : ∀ kid ∈ form.children, f kid + g kid ≤ h kid) : form.sum f + form.sum g ≤ form.sum h := by
  unfold sum
  generalize form.children = children at hle
  induction children with
  | nil => exact Nat.le_refl 0
  | cons kid rest ih =>
    have hkid := hle kid (.head _)
    have hrest := ih (forall_mem_cons.mp hle).2
    simp only [foldr_cons]
    omega

lemma Node.size_pos (node : Node) : 0 < node.size := by
  obtain ⟨lbl, form⟩ := node
  rw [size_mk]
  omega

lemma Node.size_adopt (lbl label' : Label) (id : NodeId) (form : Form Node) :
    (mk lbl (adopt id form)).size = (mk label' form).size := by
  have hkid (kid : Node) : (kid.withParent (some id)).size = kid.size := by
    obtain ⟨own, form⟩ := kid
    rw [withParent, size_mk, size_mk]
    rfl
  rw [size_mk, size_mk, adopt, sum_map]
  simp only [hkid]

/-- The number of changes is at most what the tree got smaller by. -/
def Sweep.Shrinks (node : Node) (result : Sweep) : Prop := result.node.size + result.removed ≤ node.size

lemma Sweep.shrinks_ofForm {f : Node → Sweep} (h : ∀ kid ∈ form.children, (f kid).Shrinks kid) :
    (Sweep.ofForm lbl (form.map f)).Shrinks (.mk lbl form) := by
  have hsum := sum_add_le h
  rw [Shrinks, Sweep.ofForm, map_map, size_mk, size_mk, sum_map, sum_map]
  dsimp only
  omega

section

variable (tbl : SymbolTable) (uses : List Use)

lemma shrinks_collapse (node : Node) :
    (collapse tbl uses node).inside.Shrinks node ∧ (collapse tbl uses node).whole.Shrinks node := by
  induction node with
  | mk lbl form ih =>
    have hin : (Sweep.ofForm lbl ((form.map fun kid => (kid, collapse tbl uses kid)).map (·.2.whole))).Shrinks
        (.mk lbl form) := by
      rw [map_map]
      exact Sweep.shrinks_ofForm fun kid hc => (ih kid hc).2
    rw [collapse_mk]
    cases form with
    | binary op lhs rhs =>
      have hval := (ih rhs (.tail _ (.head _))).1
      have hlhs := lhs.size_pos
      cases op with
      | assign =>
        simp only [map, collapseForm]
        split
        · refine ⟨hin, ?_⟩
          generalize (collapse tbl uses rhs).inside = val at hval
          obtain ⟨⟨own, form⟩, removed⟩ := val
          rw [Sweep.Shrinks] at hval
          rw [Sweep.Shrinks, replaceBy, form_mk, size_adopt _ own, size_mk lbl]
          simp only [Form.sum, Form.children, foldr_cons, foldr_nil] at hval ⊢
          omega
        · exact ⟨hin, hin⟩
      | _ => exact ⟨hin, hin⟩
    | _ => exact ⟨hin, hin⟩

lemma size_filter (nodes : List Node) (keep : Node → Bool) (f : Node → Node) :
    (nodes.filter keep).foldr (fun node n => (f node).size + n) 0 + (nodes.length - (nodes.filter keep).length) ≤
      nodes.foldr (fun node n => (f node).size + n) 0 := by
  induction nodes with
  | nil => exact Nat.le_refl 0
  | cons node rest ih =>
    have hpos := (f node).size_pos
    have hlen := length_filter_le keep rest
    cases hk : keep node <;> simp [hk] <;> omega

lemma shrinks_pruneStatements (node : Node) : (pruneStatements tbl uses node).Shrinks node := by
  induction node with
  | mk lbl form ih =>
    have hin : (Sweep.ofForm lbl ((form.map fun kid => (kid, pruneStatements tbl uses kid)).map
        Prod.snd)).Shrinks (.mk lbl form) := by
      rw [map_map]
      exact Sweep.shrinks_ofForm ih
    rw [pruneStatements_mk]
    cases form with
    | block nodes =>
      simp only [map, pruneForm]
      split
      · exact hin
      · have hkept := size_filter nodes (fun node => !isDeadStatement tbl uses node)
          (pruneStatements tbl uses · |>.node)
        rw [Sweep.Shrinks] at hin
        rw [Sweep.Shrinks, withForm, size_adopt _ lbl]
        simp only [Sweep.ofForm, Form.map, size_mk, Form.sum, Form.children, filter_map, List.map_map,
          foldr_map, length_map, Function.comp_def] at hin hkept ⊢
        omega
    | loop kind init? cond? step? body =>
      cases step? with
      | none => exact hin
      | some step =>
        simp only [map, Option.map_some, pruneForm]
        split
        · rw [Sweep.Shrinks, withForm, size_adopt _ lbl]
          rw [Sweep.Shrinks] at hin
          have hstep := (pruneStatements tbl uses step).node.size_pos
          cases init? <;> cases cond? <;>
            simp [Sweep.ofForm, Form.map, size_mk, Form.sum, Form.children] at hin ⊢ <;> omega
        · exact hin
    | _ => exact hin

lemma shrinks_sweep (node : Node) : (sweep tbl node).Shrinks node := by
  have hcoll := (shrinks_collapse tbl (node.uses .read) node).2
  have hpruned := shrinks_pruneStatements tbl (node.uses .read)
    (collapseAssignments tbl (node.uses .read) node).node
  rw [Sweep.Shrinks] at hcoll hpruned ⊢
  rw [collapse, ← collapseAssignments] at hcoll
  simp only [sweep]
  omega

lemma removed_sweepUpTo {bound : Nat} (h : node.size ≤ bound) :
    (sweep tbl (sweepUpTo tbl bound node).node).removed = 0 := by
  induction bound generalizing node with
  | zero => exact absurd (node.size_pos) (by omega)
  | succ bound ih =>
    rw [sweepUpTo]
    dsimp only
    split
    · assumption
    · have hshrinks := shrinks_sweep tbl node
      rw [Sweep.Shrinks] at hshrinks
      exact ih (by omega)

end

/-! ## Bodies -/

lemma Node.SameOutcome.trans {first second third : Node}
    (h : SameOutcome sem tbl first second) (h' : SameOutcome sem tbl second third) :
    SameOutcome sem tbl first third :=
  fun σ => ⟨fun mem value? => ((h' σ).1 mem value?).trans ((h σ).1 mem value?), (h' σ).2.trans (h σ).2⟩

/-- Stores that agree have the same memory. -/
lemma Node.ActsAlike.sameOutcome {body other : Node}
    (h : body.ActsAlike tbl (Store.Agree hidden) sem other) : SameOutcome sem tbl body other := by
  intro σ
  have hends (k : Nat) : EndsAlike (Store.Agree hidden) (body.run sem tbl k σ) (other.run sem tbl k σ) :=
    h.run (.refl σ)
  have hsame (k : Nat) : (other.run sem tbl k σ).map (fun res => (res.1, res.2.memory)) =
      (body.run sem tbl k σ).map fun res => (res.1, res.2.memory) := by
    have h := hends k
    generalize body.run sem tbl k σ = first, other.run sem tbl k σ = second at h
    cases h with
    | none => rfl
    | some h => exact congrArg some (Prod.ext h.1.symm h.2.memory.symm)
  have hfinishes (node : Node) (mem : Memory) (value? : Option Value) : node.Finishes sem tbl σ mem value? ↔
      ∃ k completion, (node.run sem tbl k σ).map (fun res => (res.1, res.2.memory)) =
        some (completion, mem) ∧ completion.result? = value? := by
    simp [Finishes, Option.map_eq_some_iff]
    simp only [← exists_and_right, and_assoc]
  refine ⟨fun mem value? => by simp only [hfinishes, hsame], forall_congr' fun k => ?_⟩
  rw [← Option.map_eq_none_iff, hsame, Option.map_eq_none_iff]

lemma sameOutcome_sweep (ht : node.Typed tbl) (sem : Interpretation) :
    node.SameOutcome sem tbl (sweep tbl node).node := by
  have hcollapses := sweeps_collapseAssignments tbl (node.uses .read) node
  have hrespects : node.Respects tbl (Store.Agree (isDeadStore tbl (node.uses .read))) := by
    refine respects_agree fun use hu hreads => ?_
    have hcount : 0 < countReads (node.uses .read) use.symbol := countP_pos_iff.mpr ⟨use, hu, by simp [hreads]⟩
    simp [isDeadStore, Nat.ne_of_gt hcount]
  obtain ⟨hcoll, hfirst⟩ := hcollapses.actsAlike sem ht hrespects
  have hsecond := ((sweeps_pruneStatements tbl (node.uses .read) _).actsAlike sem
    (hcollapses.kept ht).typed hcoll).2
  exact hfirst.sameOutcome.trans hsecond.sameOutcome

/-- What removing dead stores leaves of a body. -/
structure Node.ClearedTo (table : SymbolTable) (body cleared : Node) : Prop where
  outcome : ∀ interp, body.SameOutcome interp table cleared
  /-- A symbol that is still used keeps its declarations. -/
  declarations : ∀ symbol, .variable symbol ∈ cleared.mentions →
    cleared.mentions.count (.declaration symbol) = body.mentions.count (.declaration symbol)
  fewer : cleared.mentions.Sublist body.mentions

lemma clearedTo_sweepUpTo (bound : Nat) (ht : node.Typed tbl) :
    node.ClearedTo tbl (sweepUpTo tbl bound node).node := by
  induction bound generalizing node with
  | zero => exact ⟨fun _ => .of_run_eq rfl, fun _ _ => rfl, .refl _⟩
  | succ bound ih =>
    rw [sweepUpTo]
    dsimp only
    split
    · exact ⟨fun _ => .of_run_eq rfl, fun _ _ => rfl, .refl _⟩
    · have hcollapses := sweeps_collapseAssignments tbl (node.uses .read) node
      have hprunes := sweeps_pruneStatements tbl (node.uses .read)
        (collapseAssignments tbl (node.uses .read) node).node
      have hsub := hprunes.mentions.1.trans hcollapses.mentions.1
      have htyped : (sweep tbl node).node.Typed tbl := (hprunes.kept (hcollapses.kept ht).typed).typed
      obtain ⟨houtcome, hdecls, hfewer⟩ := ih htyped
      refine ⟨fun sem => (sameOutcome_sweep ht sem).trans (houtcome sem), fun sym hm => ?_, hfewer.trans hsub⟩
      refine (hdecls sym hm).trans ?_
      cases hu : isUnmentioned (node.uses .read) sym with
      | false => exact (hprunes.mentions.2 sym hu).trans (hcollapses.mentions.2 sym hu)
      | true =>
        -- The one place that names the symbol is a variable.
        have hnames := count_names_le hu
        have hvariable := count_pos_iff.mpr ((hfewer.trans hsub).subset hm)
        have hle := hsub.count_le (.declaration sym)
        rw [count_names] at hnames
        change (pruneStatements tbl (node.uses .read) _).node.mentions.count _ = _
        omega

/-- Removing dead stores from a function, simplified before or not, changes no
outcome, keeps the declarations of what is still used, and ends with a tree
without dead stores. -/
theorem Program.clearedTo_eliminateDeadStores {source : Source} {layout : Layout} {program other : Program}
    (hl : layout.Built) (hparse : Program.parse source layout = .ok program)
    (hother : other = program ∨ ∃ options simplified, program.simplify options = .ok simplified ∧
      other = simplified.program) :
    ∀ function ∈ other.functions, ∃ symbol parameters body, function.form = .function symbol parameters body ∧
      body.ClearedTo other.symbols (eliminateDeadStores other.symbols body).node ∧
      (sweep other.symbols (eliminateDeadStores other.symbols body).node).removed = 0 := by
  have hbody {symbols : SymbolTable} {body : Node} (ht : body.Typed symbols) :
    body.ClearedTo symbols (eliminateDeadStores symbols body).node ∧
      (sweep symbols (eliminateDeadStores symbols body).node).removed = 0 :=
    ⟨clearedTo_sweepUpTo body.size ht, removed_sweepUpTo symbols (Nat.le_refl _)⟩
  intro function hm
  rcases hother with rfl | ⟨options, simplified, hsimplify, rfl⟩
  · obtain ⟨symbol, parameters, body, hform, hread⟩ := (Program.wellRead_of_parse hl hparse).functions function hm
    exact ⟨symbol, parameters, body, hform, hbody hread.typed⟩
  · obtain ⟨hsymbols, hfunctions⟩ := Program.functionLeft_of_simplify hl hparse hsimplify
    obtain ⟨symbol, parameters, body, hform, hleft⟩ := hfunctions function hm
    rw [hsymbols]
    exact ⟨symbol, parameters, body, hform, hbody hleft.typed⟩

/-- Chained stores, a loop step and declarations that are all dead. -/
def Source.chainedStores : Source := ⟨.memory, ("int main() \x7b int x = 1; int y; int z = 2; x = y = g; " ++
  "for (int i = 0; i < 3; x = 4) \x7b i = i + 1; z = i; \x7d return z; \x7d").toList⟩

theorem Program.clearedTo_eliminateDeadStores_chainedStores : ∃ program simplified,
    Program.parse .chainedStores .twoWords = .ok program ∧ program.simplify .standard = .ok simplified ∧
      program.functions.map (fun function => function.children.map fun body =>
        (eliminateDeadStores program.symbols body).removed) = [[7]] ∧
      ∀ other, other = program ∨ other = simplified.program → ∀ function ∈ other.functions,
      ∃ symbol parameters body, function.form = .function symbol parameters body ∧
        body.ClearedTo other.symbols (eliminateDeadStores other.symbols body).node ∧
          (sweep other.symbols (eliminateDeadStores other.symbols body).node).removed = 0 := by
  obtain ⟨program, simplified, hparse, hsimplify, hremoved⟩ := Source.exists_of_simplifiesTo (by decide +kernel :
    Source.chainedStores.simplifiesTo .twoWords .standard (fun program _ => program.functions.map (fun function =>
      function.children.map fun body => (eliminateDeadStores program.symbols body).removed) = [[7]]) = true)
  refine ⟨program, simplified, hparse, hsimplify, of_decide_eq_true hremoved, fun other hother => ?_⟩
  exact Program.clearedTo_eliminateDeadStores Layout.built_twoWords hparse (hother.imp_right fun heq =>
    ⟨.standard, simplified, hsimplify, heq⟩)

end Shading
