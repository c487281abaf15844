import Mathlib.Data.List.Flatten
import Shading.Proofs.Simplify.Preserved
import Shading.Proofs.Simplify.Sweep

/-!
# Sweeping keeps scopes

What a sweep leaves of a tree uses each local where it is declared, if the tree
does (`Sweeps.scoped`).  A declaration that is swept away is of a local that
nothing else names.
-/

namespace Shading

open Node Form
open List hiding isEmpty sum

variable {node : Node} {tbl : SymbolTable} {Γ : List SymbolId} {uses : List Use} {form : Form Node}
  {sym : SymbolId} {nodes : List Node}

lemma Form.isDeclare_of_isExpression (h : form.isExpression = true) : form.isDeclare = false := by
  cases form <;> first | rfl | cases h

namespace Node

lemma scopedAll_pairs {pairs : List (Node × Node)} (hexp : ∀ pair ∈ pairs, pair.2.exports = pair.1.exports)
    (h : ∀ pair ∈ pairs, ∀ Γ, pair.1.Scoped tbl Γ → pair.2.Scoped tbl Γ)
    (hs : ScopedAll tbl Γ (pairs.map Prod.fst)) : ScopedAll tbl Γ (pairs.map Prod.snd) := by
  induction pairs generalizing Γ with
  | nil => trivial
  | cons pair rest ih =>
    refine ⟨h pair (.head _) Γ hs.1, ?_⟩
    rw [hexp pair (.head _)]
    exact ih (forall_mem_cons.mp hexp).2 (forall_mem_cons.mp h).2 hs.2

/-- A statement is dropped only if nothing else names what it declares. -/
lemma isUnmentioned_of_isDeadStatement (h : isDeadStatement tbl uses node = true)
    (hm : sym ∈ node.exports) : isUnmentioned uses sym = true := by
  obtain ⟨lbl, form⟩ := node
  cases form with
  | declare other ini? =>
    obtain rfl := mem_singleton.mp hm
    simp only [isDeadStatement, form_mk, Bool.and_eq_true] at h
    exact h.1
  | _ => cases hm

lemma ScopedAll.live (hcount : ∀ sym, isUnmentioned uses sym = true → (nodes.flatMap names).count sym ≤ 1)
    (h : ScopedAll tbl Γ nodes) : ScopedAll tbl Γ (nodes.filter fun node => !isDeadStatement tbl uses node) := by
  induction nodes generalizing Γ with
  | nil => exact h
  | cons node rest ih =>
    have hrest : ∀ sym, isUnmentioned uses sym = true → (rest.flatMap names).count sym ≤ 1 := by
      intro sym hs
      have hall := hcount sym hs
      rw [flatMap_cons, count_append] at hall
      omega
    cases hdead : isDeadStatement tbl uses node with
    | false =>
      rw [filter_cons_of_pos (by rw [hdead]; rfl)]
      exact ⟨h.1, ih hrest h.2⟩
    | true =>
      rw [filter_cons_of_neg (by rw [hdead]; exact Bool.false_ne_true)]
      refine ih hrest (h.2.narrow (subset_append_right ..) fun sym hm => ?_)
      rcases mem_append.mp hm with hm | hm
      · have hfree := isUnmentioned_of_isDeadStatement hdead hm
        exact .inr (not_mem_names_of_count (hcount sym hfree) (mem_names_of_mem_exports hm))
      · exact .inl hm

lemma count_declaration_of_isPure (h : node.isPure tbl = true) (sym : SymbolId) :
    node.mentions.count (.declaration sym) = 0 := by
  induction node with
  | mk lbl form ih =>
    rw [isPure_mk, Bool.and_eq_true, all_eq_true] at h
    rw [mentions_mk, count_append, Nat.add_eq_zero_iff]
    refine ⟨by (cases form <;> first | rfl | cases h.1), ?_⟩
    rw [count_eq_zero, mem_flatMap]
    rintro ⟨kid, hc, hm⟩
    exact count_eq_zero.mp (ih kid hc (h.2 kid hc)) hm

lemma count_declaration_of_isDeadStatement
    (h : isDeadStatement tbl uses node = true) (hs : isUnmentioned uses sym = false) :
    node.mentions.count (.declaration sym) = 0 := by
  obtain ⟨lbl, form⟩ := node
  unfold isDeadStatement at h
  split at h
  · rename_i other ini? hform
    obtain rfl : form = .declare other ini? := hform
    obtain ⟨hother, hpure⟩ := Bool.and_eq_true_iff.mp h
    have hne : other ≠ sym := fun heq => by rw [heq, hs] at hother; cases hother
    rw [mentions_mk]
    cases ini? with
    | none => simp [Form.mentions, Form.children, hne]
    | some val => simpa [Form.mentions, Form.children, hne] using count_declaration_of_isPure hpure sym
  · exact count_declaration_of_isPure (Bool.and_eq_true_iff.mp h).2 sym

lemma count_filter {keep : Node → Bool} {mention : Mention} (h : ∀ node ∈ nodes, keep node = false →
    node.mentions.count mention = 0) :
    ((nodes.filter keep).flatMap mentions).count mention = (nodes.flatMap mentions).count mention := by
  induction nodes with
  | nil => rfl
  | cons node rest ih =>
    have hrest := ih (forall_mem_cons.mp h).2
    cases hk : keep node with
    | true => simp only [filter_cons_of_pos hk, flatMap_cons, count_append, hrest]
    | false =>
      rw [filter_cons_of_neg (by rw [hk]; exact Bool.false_ne_true), hrest, flatMap_cons, count_append,
        h node (.head _) hk, Nat.zero_add]

end Node

namespace Sweeps

variable {swept : Node}

section

variable (h : Sweeps tbl uses node swept)
include h

/-- A sweep drops places where symbols are named, and no declaration of a symbol
that is used. -/
lemma mentions : swept.mentions.Sublist node.mentions ∧ ∀ sym, isUnmentioned uses sym = false →
      swept.mentions.count (.declaration sym) = node.mentions.count (.declaration sym) := by
  induction h with
  | form pairs children ih =>
    simp only [mentions_mk, mentions_map, children_map, flatMap_map]
    refine ⟨.append (.refl _) (.flatMap_right _ fun pair hp => (ih pair hp).1), fun sym hs => ?_⟩
    rw [count_append, count_append, count_flatMap, count_flatMap]
    exact congrArg (_ + List.sum ·) (map_congr_left fun pair hp => (ih pair hp).2 sym hs)
  | @collapse lbl tgt val swept isDead inside ih =>
    have halike : swept.Alike (.mk { lbl with type := swept.type, span := swept.span }
        (adopt lbl.id swept.form)) :=
      .replaceBy (.mk lbl .empty) swept
    have htgt : ∃ sym, tgt.mentions = [.variable sym] := by
      obtain ⟨own, form⟩ := tgt
      cases form with
      | var sym => exact ⟨sym, mentions_mk own _⟩
      | _ => cases isDead
    obtain ⟨other, htgt⟩ := htgt
    have hasg : (mk lbl (.binary .assign tgt val)).mentions = .variable other :: val.mentions := by
      simp [mentions_mk, Form.mentions, Form.children, htgt]
    rw [← halike.mentions_eq, hasg]
    exact ⟨ih.1.cons _, fun sym hs => by rw [count_cons_of_ne (by simp)]; exact ih.2 sym hs⟩
  | @statements lbl node nodes inside ih =>
    rw [← (Node.Alike.adopt lbl _).mentions_eq, mentions_mk]
    rw [mentions_mk] at ih
    refine ⟨.trans (.append (.refl _) (filter_sublist.flatMap _)) ih.1, fun sym hs => ?_⟩
    rw [← ih.2 sym hs, count_append, count_append]
    exact congrArg (_ + ·) (count_filter fun node _ hdead => count_declaration_of_isDeadStatement
      (by simpa using hdead) hs)
  | @step lbl node kind init? cond? step body inside isPure ih =>
    rw [← (Node.Alike.adopt lbl _).mentions_eq, mentions_mk]
    rw [mentions_mk] at ih
    refine ⟨.trans ?_ ih.1, fun sym hs => ?_⟩
    · simp [Form.children, Form.mentions]
    · rw [← ih.2 sym hs]
      simp [Form.children, Form.mentions, count_declaration_of_isPure isPure]

lemma count_names_le (sym : SymbolId) : swept.names.count sym ≤ node.names.count sym := by
  rw [count_names, count_names]
  exact Nat.add_le_add (h.mentions.1.count_le _) (h.mentions.1.count_le _)

lemma exports_eq (ht : node.Typed tbl) : swept.exports = node.exports := by
  induction h with
  | form pairs children ih => cases pairs <;> rfl
  | @collapse lbl tgt val swept isDead inside ih =>
    have halike : swept.Alike _ := .replaceBy (.mk lbl .empty) swept
    have hval := ih (ht.child (.tail _ (.head _)))
    refine halike.exports_eq.symm.trans (hval.trans ?_)
    exact exports_eq_nil (Form.isDeclare_of_isExpression ht.rule.2.1)
  | statements inside ih | step inside isPure ih => exact ih ht

/-- What the start of a loop declares before and after a sweep. -/
lemma initExports (ht : node.Typed tbl) : swept.initExports ⊆ node.initExports ∧
    ∀ sym ∈ node.initExports, sym ∈ swept.initExports ∨ isUnmentioned uses sym = true := by
  have of_eq {a b : Node} (heq : b.initExports = a.initExports) : b.initExports ⊆ a.initExports ∧
      ∀ sym ∈ a.initExports, sym ∈ b.initExports ∨ isUnmentioned uses sym = true := by
    rw [heq]
    exact ⟨List.Subset.refl _, fun _ => .inl⟩
  induction h with
  | form pairs children ih =>
    refine of_eq ?_
    cases pairs with
    | block pairs =>
      have hexp : ∀ pair ∈ pairs, pair.2.exports = pair.1.exports := fun pair hp =>
        (children pair hp).exports_eq (ht.child (mem_map_of_mem hp))
      change (pairs.map Prod.snd).flatMap exports = (pairs.map Prod.fst).flatMap exports
      rw [flatMap_map, flatMap_map]
      exact flatMap_congr hexp
    | _ => rfl
  | @collapse lbl tgt val swept isDead inside ih =>
    have halike : swept.Alike _ := .replaceBy (.mk lbl .empty) swept
    have hstands := (inside.kept (ht.child (.tail _ (.head _)))).standsIn
    refine of_eq (halike.initExports_eq.symm.trans ?_)
    rw [initExports_of_expression (hstands.isExpression_eq.trans ht.rule.2.1)]
    rfl
  | @statements lbl node nodes inside ih =>
    obtain ⟨hsub, hall⟩ := ih ht
    rw [← (Node.Alike.adopt lbl _).initExports_eq]
    refine ⟨List.Subset.trans ?_ hsub, fun sym hm => ?_⟩
    · exact (filter_sublist.flatMap exports).subset
    · refine (hall sym hm).elim (fun hm => ?_) .inr
      obtain ⟨statement, hstmt, hs⟩ := mem_flatMap.mp hm
      cases hdead : isDeadStatement tbl uses statement with
      | false => exact .inl (mem_flatMap.mpr ⟨statement, mem_filter.mpr ⟨hstmt, by rw [hdead]; rfl⟩, hs⟩)
      | true => exact .inr (isUnmentioned_of_isDeadStatement hdead hs)
  | @step lbl node kind init? cond? step body inside isPure ih => exact ih ht

end

end Sweeps

lemma Sweeps.scoped {swept : Node} (h : Sweeps tbl uses node swept) (ht : node.Typed tbl)
    (hcount : ∀ sym, isUnmentioned uses sym = true → node.names.count sym ≤ 1) (hs : node.Scoped tbl Γ) :
    swept.Scoped tbl Γ := by
  induction h generalizing Γ with
  | @form lbl pairs children ih =>
    have hkid (pair : Node × Node) (hp : pair ∈ pairs.children) : pair.1 ∈ (pairs.map Prod.fst).children :=
      mem_children_map.mpr ⟨pair, hp, rfl⟩
    have hpair (pair : Node × Node) (hp : pair ∈ pairs.children) (Γ : List SymbolId) (hs : pair.1.Scoped tbl Γ) :
        pair.2.Scoped tbl Γ :=
      ih pair hp (ht.child (hkid pair hp))
        (fun sym hu => Nat.le_trans ((names_sublist_of_child (hkid pair hp)).count_le sym) (hcount sym hu)) hs
    rw [scoped_mk] at hs ⊢
    cases pairs with
    | block pairs =>
      exact scopedAll_pairs (fun pair hp => (children pair hp).exports_eq (ht.child (hkid pair hp))) hpair hs
    | loop kind init? cond? step? body =>
      obtain ⟨hinit, hcond, hstep, hbody⟩ := hs
      have hrest (pair : Node × Node) (hp : pair ∈ (Form.loop kind none cond? step? body).children) :
          pair ∈ (Form.loop kind init? cond? step? body).children := by
        simp_all [Form.children]
      -- A local that the start no longer declares is not named in a round.
      have hin (pair : Node × Node) (hp : pair ∈ (loop kind none cond? step? body).children)
          (hs : pair.1.Scoped tbl (((init?.map Prod.fst).map Node.initExports).getD [] ++ Γ)) :
          pair.2.Scoped tbl (((init?.map Prod.snd).map Node.initExports).getD [] ++ Γ) := by
        have hswept := hpair pair (hrest pair hp) _ hs
        cases init? with
        | none => exact hswept
        | some init =>
          have hmem : init ∈ (loop kind (some init) cond? step? body).children := mem_append_left _
            (mem_append_left _ (mem_append_left _ (.head _)))
          obtain ⟨hsub, hall⟩ := (children init hmem).initExports (ht.child (hkid init hmem))
          refine hswept.narrow (append_subset.mpr ⟨List.Subset.trans hsub (subset_append_left ..),
            subset_append_right ..⟩) fun sym hm => ?_
          rcases mem_append.mp hm with hm | hm
          · refine (hall sym hm).imp (mem_append_left _) fun hfree hnamed => ?_
            have hnames := hcount sym hfree
            rw [names_of_named (by rfl)] at hnames
            refine not_mem_names_of_count hnames (mem_names_of_mem_initExports hm) pair.1 ?_
              (count_pos_iff.mp (Nat.lt_of_lt_of_le (count_pos_iff.mpr hnamed)
                ((children pair (hrest pair hp)).count_names_le sym)))
            exact mem_children_map.mpr ⟨pair, hp, rfl⟩
          · exact .inl (mem_append_right _ hm)
      refine ⟨fun node hm => ?_, fun node hm => ?_, fun node hm => ?_,
        hin body (by simp [Form.children]) hbody⟩ <;>
        obtain ⟨pair, hp, rfl⟩ := Option.map_eq_some_iff.mp hm
      · exact hpair pair (by simp_all [Form.children]) Γ (hinit pair.1 (Option.mem_map_of_mem _ hp))
      · exact hin pair (by simp_all [Form.children]) (hcond pair.1 (Option.mem_map_of_mem _ hp))
      · exact hin pair (by simp_all [Form.children]) (hstep pair.1 (Option.mem_map_of_mem _ hp))
    | declare sym ini? =>
      refine ⟨hs.1, fun initializer hi => ?_⟩
      obtain ⟨pair, hp, rfl⟩ := Option.map_eq_some_iff.mp hi
      exact hpair pair (Option.mem_toList.mpr hp) Γ (hs.2 pair.1 (Option.mem_map_of_mem _ hp))
    | var sym => exact hs
    | _ =>
      intro kid hc
      obtain ⟨pair, hp, rfl⟩ := mem_children_map.mp hc
      exact hpair pair hp Γ (hs _ (hkid pair hp))
  | @collapse lbl tgt val swept isDead inside ih =>
    have hval : val ∈ (Form.binary .assign tgt val).children := by simp [Form.children]
    have hswept := ih (ht.child hval)
      (fun sym hu => Nat.le_trans ((names_sublist_of_child hval).count_le sym) (hcount sym hu))
      (hs.child_of_expression rfl hval)
    exact hswept.of_alike (.replaceBy (.mk lbl .empty) swept)
  | @statements lbl node nodes inside ih =>
    have hnodes : Node.ScopedAll tbl Γ nodes := scoped_mk.mp (ih ht hcount hs)
    have hnames : ∀ sym, isUnmentioned uses sym = true → (nodes.flatMap names).count sym ≤ 1 := by
      intro sym hu
      have hswept := Nat.le_trans (inside.count_names_le sym) (hcount sym hu)
      rwa [names_of_named (by rfl)] at hswept
    have hlive : (mk lbl (.block (nodes.filter fun node => !isDeadStatement tbl uses node))).Scoped tbl Γ :=
      scoped_mk.mpr (hnodes.live hnames)
    exact hlive.of_alike (.adopt lbl _)
  | @step lbl node kind init? cond? step body inside isPure ih =>
    obtain ⟨hinit, hcond, -, hbody⟩ := scoped_mk.mp (ih ht hcount hs)
    have hloop : (mk lbl (.loop kind init? cond? none body)).Scoped tbl Γ :=
      scoped_mk.mpr ⟨hinit, hcond, (fun _ hm => by cases hm), hbody⟩
    exact hloop.of_alike (.adopt lbl _)

/-- Sweeps count the uses of the tree as it was before the first change. -/
lemma scoped_sweepUpTo (bound : Nat) (ht : node.Typed tbl)
    (hs : node.Scoped tbl Γ) : (sweepUpTo tbl bound node).node.Scoped tbl Γ := by
  induction bound generalizing node with
  | zero => exact hs
  | succ bound ih =>
    rw [sweepUpTo]
    dsimp only
    split
    · exact hs
    · have hcount : ∀ sym, isUnmentioned (node.uses .read) sym = true → node.names.count sym ≤ 1 :=
        fun _ => count_names_le
      have hcoll := sweeps_collapseAssignments tbl (node.uses .read) node
      have hpruned := sweeps_pruneStatements tbl (node.uses .read)
        (collapseAssignments tbl (node.uses .read) node).node
      have htyped := (hcoll.kept ht).typed
      refine ih (hpruned.kept htyped).typed (hpruned.scoped htyped (fun sym hu => ?_) (hcoll.scoped ht hcount hs))
      exact Nat.le_trans (hcoll.count_names_le sym) (hcount sym hu)

end Shading
