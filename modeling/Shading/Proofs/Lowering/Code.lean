import Shading.Proofs.Lowering.Values
import Shading.Proofs.Simplify.Stops

/-!
# Code of statements

Lowering a statement of a neat tree leaves a well-formed graph
(`statement_completes`): the blocks it makes are all entered or removed
when it is done, and its last block is closed only if the statement stops.
Jumps out of a loop go to the blocks of that loop.
-/

namespace Shading

open Node LoopExits List Option

variable {exits exits' : LoopExits} {res type : ValueType} {after Γ : List SymbolId} {stopped stops : Bool}
  {arms : List Node} {g now : Graph} {own : List ObjectId} {loose : Prop} {tbl : SymbolTable}
  {acc : Accesses} {id : ObjectId} {start st : LoweringState} {loops : List LoopTargets} {lbl : Label}
  {step? : Option Node} {blocks : Lower.LoopBlocks} {act : Lower Unit} {sym : SymbolId} {join : ObjectId}

/-! ## Graphs that grow -/

namespace Graph

/-- Names of the blocks with code. -/
def names (graph : Graph) : List ObjectId := graph.blocks.map Prod.fst

/-- The later graph has all blocks and jumps. -/
structure Within (graph later : Graph) : Prop where
  names : graph.names ⊆ later.names
  targets : graph.targets ⊆ later.targets

/-- A later graph.  The blocks `own` are pending that were not before. -/
structure Grown (graph : Graph) (own : List ObjectId) (later : Graph) : Prop extends graph.Within later where
  pending : later.pending.Perm (own ++ graph.pending)

variable {mid later : Graph} {more : List ObjectId}

lemma mem_ids_of_names (h : id ∈ g.names) : id ∈ g.ids := mem_append_left _ h

@[simp] lemma names_emit (code : List Instruction) : (g.emit code).names = g.names := by
  simp [names, blocks, emit]

@[simp] lemma names_enter (id : ObjectId) : (g.enter id).names = g.names ++ [id] := by
  simp [names, blocks, enter]

namespace Within

lemma refl (g : Graph) : g.Within g := ⟨fun _ h => h, fun _ h => h⟩

lemma trans (h : g.Within mid) (h' : mid.Within later) : g.Within later :=
  ⟨fun _ hm => h'.names (h.names hm), fun _ hm => h'.targets (h.targets hm)⟩

lemma of_add (h : (g.add id).Within later) : g.Within later := ⟨h.names, h.targets⟩

lemma emit (h : g.Within mid) (code : List Instruction) : g.Within (mid.emit code) := by
  refine ⟨?_, ?_⟩
  · rw [names_emit]
    exact h.names
  · rw [targets_emit]
    exact fun _ hm => mem_append_left _ (h.targets hm)

lemma leave (h : g.Within mid) : g.Within (mid.leave stopped id) := by
  cases stopped with
  | true => exact h
  | false => exact h.emit _

lemma enter (h : g.Within mid) : g.Within (mid.enter id) := by
  refine ⟨?_, ?_⟩
  · rw [names_enter]
    exact fun _ hm => mem_append_left _ (h.names hm)
  · rw [targets_enter]
    exact h.targets

end Within

namespace Grown

lemma refl (g : Graph) : g.Grown [] g := ⟨.refl g, .refl _⟩

lemma trans (h : g.Grown own mid) (h' : mid.Grown more later) : g.Grown (more ++ own) later := by
  refine ⟨h.toWithin.trans h'.toWithin, h'.pending.trans ?_⟩
  rw [append_assoc]
  exact h.pending.append_left more

section

variable (h : g.Grown own later)
include h

lemma perm {own' : List ObjectId} (hp : own.Perm own') : g.Grown own' later :=
  ⟨h.toWithin, h.pending.trans (hp.append_right _)⟩

lemma mem_pending (hm : id ∈ own) : id ∈ later.pending :=
  h.pending.mem_iff.mpr (mem_append_left _ hm)

lemma mem_ids (hm : id ∈ own) : id ∈ later.ids := mem_ids_of_pending (h.mem_pending hm)

lemma ids : g.ids ⊆ later.ids := by
  intro id hm
  rcases mem_append.mp hm with hm | hm
  · exact mem_ids_of_names (h.names hm)
  · exact mem_ids_of_pending (h.pending.mem_iff.mpr (mem_append_right _ hm))

end

lemma emit (h : g.Grown own mid) (code : List Instruction) : g.Grown own (mid.emit code) :=
  ⟨h.toWithin.emit code, h.pending⟩

lemma leave (h : g.Grown own mid) : g.Grown own (mid.leave stopped id) :=
  ⟨h.toWithin.leave, by rw [pending_leave]; exact h.pending⟩

lemma add (h : g.Grown own mid) : g.Grown (id :: own) (mid.add id) :=
  ⟨⟨h.names, h.targets⟩, h.pending.cons id⟩

lemma erase (h : g.Grown (id :: own) mid) : (mid.pending.erase id).Perm (own ++ g.pending) := by
  have herase := h.pending.erase id
  rwa [cons_append, erase_cons_head] at herase

lemma enter (h : g.Grown (id :: own) mid) : g.Grown own (mid.enter id) := ⟨h.toWithin.enter, h.erase⟩

lemma drop (h : g.Grown (id :: own) mid) : g.Grown own (mid.drop id) := ⟨⟨h.names, h.targets⟩, h.erase⟩

end Grown

end Graph

lemma LoopExits.or_eq_never {a b : LoopExits} : a.or b = .never ↔ a = .never ∧ b = .never := by
  obtain ⟨breaks, continues⟩ := a
  obtain ⟨breaks', continues'⟩ := b
  cases breaks <;> cases continues <;> cases breaks' <;> cases continues' <;> simp [or, never]

lemma Node.exports_subset_initExports (node : Node) : node.exports ⊆ node.initExports := by
  obtain ⟨lbl, form⟩ := node
  cases form with
  | block stmts => exact nil_subset _
  | _ => exact fun _ hm => hm

/-! ## States on the way -/

namespace LoweringState

/-- Operands stay, and locals are only added. -/
structure Follows (state later : LoweringState) : Prop where
  base : later.base = state.base
  grows : state.builder.Grows later.builder
  locals : ∃ more, later.locals = more ++ state.locals

variable {mid later : LoweringState}

lemma Follows.refl (st : LoweringState) : st.Follows st := ⟨rfl, .refl _, [], rfl⟩

lemma Follows.trans (h : st.Follows mid) (h' : mid.Follows later) : st.Follows later := by
  obtain ⟨more, hmore⟩ := h.locals
  obtain ⟨more', hmore'⟩ := h'.locals
  exact ⟨h'.base.trans h.base, h.grows.trans h'.grows, more' ++ more, by rw [hmore', hmore, append_assoc]⟩

lemma Keeps.follows (h : st.Keeps later) : st.Follows later := ⟨h.base, h.grows, [], h.locals⟩

lemma Covers.follows (h : st.Covers loose Γ) (hf : st.Follows later) : later.Covers loose Γ := by
  refine h.imp_right fun hcovers sym hm => ?_
  obtain ⟨more, hmore⟩ := hf.locals
  rw [hmore, lookup_append, isSome_or, hcovers sym hm, Bool.or_true]

lemma Covers.mono {scope' : List SymbolId} (h : st.Covers loose Γ) (hs : scope' ⊆ Γ) : st.Covers loose scope' :=
  h.imp_right fun hcovers sym hm => hcovers sym (hs hm)

/-- A state on the way from another one, where `graph` was the graph.  Its code
makes the jumps `exits` to the innermost of the loops. -/
structure Underway (table : SymbolTable) (accesses : Accesses) (unscoped : Prop) (scope : List SymbolId)
    (graph : Graph)
    (state start : LoweringState) (own : List ObjectId) (loops : List LoopTargets) (exits : LoopExits)
    (stopped : Bool) (now : Graph) : Prop where
  ready : state.Ready table accesses stopped now
  grown : graph.Grown own now
  follows : start.Follows state
  loops_eq : state.loops = loops
  covers : state.Covers unscoped scope
  breaks : exits.breaks = true → ∀ targets ∈ loops.head?, targets.breakTo ∈ now.targets
  continues : exits.continues = true → ∀ targets ∈ loops.head?, targets.continueTo ∈ now.targets

variable {now' : Graph} {own' : List ObjectId} {stopped' : Bool}

namespace Underway

lemma refl (h : st.Ready tbl acc stopped g) (hc : st.Covers loose Γ) :
    st.Underway tbl acc loose Γ g st [] st.loops .never stopped g :=
  ⟨h, .refl g, .refl st, rfl, hc, nofun, nofun⟩

lemma trans (h : mid.Underway tbl acc loose Γ g start own loops exits stopped now)
    (h' : later.Underway tbl acc loose after now mid own' loops exits' stopped' now') :
    later.Underway tbl acc loose after g start (own' ++ own) loops (exits.or exits') stopped' now' where
  ready := h'.ready
  grown := h.grown.trans h'.grown
  follows := h.follows.trans h'.follows
  loops_eq := h'.loops_eq
  covers := h'.covers
  breaks := fun hb targets hm => ((Bool.or_eq_true _ _).mp hb).elim
    (fun hb => h'.grown.targets (h.breaks hb targets hm)) fun hb => h'.breaks hb targets hm
  continues := fun hc targets hm => ((Bool.or_eq_true _ _).mp hc).elim
    (fun hc => h'.grown.targets (h.continues hc targets hm)) fun hc => h'.continues hc targets hm

section

variable (h : st.Underway tbl acc loose Γ g start own loops exits stopped now)
include h

/-- An operation that keeps locals and loops. -/
lemma keeps (hready : later.Ready tbl acc stopped' now') (hgrown : g.Grown own' now') (hsub : now.Within now')
    (hk : st.Keeps later) : later.Underway tbl acc loose Γ g start own' loops exits stopped' now' where
  ready := hready
  grown := hgrown
  follows := h.follows.trans hk.follows
  loops_eq := hk.loops.trans h.loops_eq
  covers := h.covers.keeps hk
  breaks := fun hb targets hm => hsub.targets (h.breaks hb targets hm)
  continues := fun hc targets hm => hsub.targets (h.continues hc targets hm)

lemma perm (hp : own.Perm own') :
    st.Underway tbl acc loose Γ g start own' loops exits stopped now := { h with grown := h.grown.perm hp }

lemma mono (hs : after ⊆ Γ) :
    st.Underway tbl acc loose after g start own loops exits stopped now := { h with covers := h.covers.mono hs }

lemma withLoops (loops' : List LoopTargets) :
    ({ st with loops := loops' } : LoweringState).Underway tbl acc loose Γ g start own loops' .never
    stopped now := by
  obtain ⟨order, hholds⟩ := h.ready.holds
  exact ⟨⟨⟨order, hholds.draws, hholds.current, hholds.locals, hholds.admits⟩, h.ready.terminated,
    h.ready.formed⟩, h.grown, ⟨h.follows.base, h.follows.grows, h.follows.locals⟩, rfl, h.covers, nofun, nofun⟩

end

lemma advance (h : st.Underway tbl acc loose Γ g start own loops exits false now)
    (ha : st.Advances tbl acc now later) : ∃ now',
      later.Underway tbl acc loose Γ g start own loops exits false now' ∧ now.Within now' := by
  obtain ⟨code, -, hready, hkeeps⟩ := ha
  exact ⟨_, h.keeps hready (h.grown.emit code) ((Graph.Within.refl now).emit code) hkeeps,
    (Graph.Within.refl now).emit code⟩

end Underway

end LoweringState

/-- Jumps have a loop to go to, and its blocks are there. -/
def Graph.Aims (graph : Graph) (exits : LoopExits) (loops : List LoopTargets) : Prop :=
  (exits ≠ .never → loops ≠ []) ∧ ∀ targets ∈ loops.head?, targets.breakTo ∈ graph.ids ∧
    targets.continueTo ∈ graph.ids

lemma Graph.Aims.mono {g later : Graph} {exits : LoopExits} {loops : List LoopTargets} (h : g.Aims exits loops)
    (hids : g.ids ⊆ later.ids) (hexits : exits' ≠ .never → exits ≠ .never) : later.Aims exits' loops :=
  ⟨fun hne => h.1 (hexits hne), fun targets hm => ⟨hids (h.2 targets hm).1, hids (h.2 targets hm).2⟩⟩

namespace Lower

open Builder LoweringState
open LoweringError (Expected)

variable {α : Type}

/-- How a statement is lowered that stands in one scope and leaves another: if
`stops` is false, something is open behind it. -/
def Completes (table : SymbolTable) (acc : Accesses) (unscoped : Prop) (scope after : List SymbolId) (stops : Bool)
    (exits : LoopExits) (action : Lower Unit) : Prop :=
  ∀ graph st, st.Ready table acc false graph → st.Covers unscoped scope → graph.Aims exits st.loops →
    Ends action st (fun _ later => ∃ stopped now, (stopped = true → stops = true) ∧
      later.Underway table acc unscoped after graph st [] st.loops exits stopped now) (Expected table unscoped)

/-! ## Steps -/

section

variable (h : st.Underway tbl acc loose Γ g start own loops exits stopped now)

include h

lemma newBlock_underway : Ends (build Build.newBlock) st (fun id later =>
    later.Underway tbl acc loose Γ g start (id :: own) loops exits stopped (now.add id) ∧ st.Keeps later)
    (Expected tbl loose) := by
  obtain ⟨order, hholds⟩ := h.ready.holds
  refine build_ready hholds.draws.newBlock fun id ir hpost => ?_
  obtain ⟨hlater, hkeeps⟩ := hholds.build hpost.1 hpost.2.1 rfl rfl
  have hready : LoweringState.Ready tbl acc stopped (now.add id) { st with builder := ir } :=
    ⟨⟨_, hlater⟩, h.ready.terminated, h.ready.formed.add⟩
  exact ⟨h.keeps hready h.grown.add ⟨fun _ hm => hm, fun _ hm => hm⟩ hkeeps, hkeeps⟩

lemma jumpIfOpen_underway (hid : id ∈ now.ids) : Ends (jumpIfOpen id) st (fun _ later => ∃ now',
    later.Underway tbl acc loose Γ g start own loops exits true now' ∧ now.Within now' ∧
      (stopped = false → id ∈ now'.targets)) (Expected tbl loose) := by
  obtain ⟨order, hholds⟩ := h.ready.holds
  refine (jumpIfOpen_holds hholds h.ready.terminated hid).imp ?_
  rintro - later ⟨hlater, hkeeps, hclosed⟩
  have hsub : now.Within (now.leave stopped id) := (Graph.Within.refl now).leave
  refine ⟨_, h.keeps ⟨⟨order, hlater⟩, hclosed, h.ready.formed.leave hid⟩ h.grown.leave hsub hkeeps, hsub,
    ?_⟩
  rintro rfl
  simp [Code.targets]

end

section

variable (h : st.Underway tbl acc loose Γ g start own loops exits false now)
include h

lemma emits_underway {x : Lower α} {found : α → Builder → Prop}
    (hx : Emits tbl acc loose x now st found) : Ends x st (fun a later => ∃ now',
      later.Underway tbl acc loose Γ g start own loops exits false now' ∧ now.Within now' ∧
        found a later.builder) (Expected tbl loose) := by
  refine Ends.imp hx ?_
  rintro a later ⟨hadv, hfound⟩
  obtain ⟨now', hlater, hsub⟩ := h.advance hadv
  exact ⟨now', hlater, hsub, hfound⟩

/-- Two jumps close the open block. -/
lemma branch_underway {val ifTrue ifFalse : ObjectId} (hval : st.builder.IsRegister val type)
    (htrue : ifTrue ∈ now.ids) (hfalse : ifFalse ∈ now.ids) : Ends (branch val ifTrue ifFalse) st (fun _ later =>
      ∃ now', later.Underway tbl acc loose Γ g start own loops exits true now' ∧ now.Within now' ∧
        ifTrue ∈ now'.targets ∧ ifFalse ∈ now'.targets) (Expected tbl loose) := by
  have hopds : ∀ opd ∈ [val, ifTrue], st.builder.IsOperand opd ∨
      opd ∈ now.ids ∧ opd ∈ (Instruction.jumpIf val ifTrue).targets := by
    intro opd hm
    rcases mem_pair.mp hm with rfl | rfl
    · exact .inl hval.isOperand
    · exact .inr ⟨htrue, mem_singleton_self _⟩
  have hformed : (now.emit [.jumpIf val ifTrue, .jump ifFalse]).WellFormed true := by
    refine h.ready.formed.close (.choice val ifTrue ifFalse) fun other hm => ?_
    rcases mem_pair.mp (show other ∈ [ifTrue, ifFalse] from hm) with rfl | rfl
    · exact htrue
    · exact hfalse
  obtain ⟨order, hholds⟩ := h.ready.holds
  refine (append_holds hholds h.ready.terminated (by simp [maxOperands]) hopds (admits_of_isControl rfl)).bind ?_
  rintro - mid ⟨hmid, hkeeps, hopen⟩
  refine (jump_holds hmid hopen (by rwa [Graph.ids_emit])).imp ?_
  rintro - later ⟨hlater, hkeeps', hclosed⟩
  rw [Graph.emit_emit] at hlater
  have hready : later.Ready tbl acc true (now.emit [.jumpIf val ifTrue, .jump ifFalse]) :=
    ⟨⟨order, hlater⟩, hclosed, hformed⟩
  have hsub := (Graph.Within.refl now).emit [.jumpIf val ifTrue, .jump ifFalse]
  exact ⟨_, h.keeps hready (h.grown.emit _) hsub (hkeeps.trans hkeeps'), hsub,
    by simp [Code.targets], by simp [Code.targets]⟩

lemma statement_underway
    (haction : Completes tbl acc loose Γ after stops exits' act) (haims : now.Aims exits' loops) :
    Ends act st (fun _ later => ∃ stopped now', (stopped = true → stops = true) ∧ now.Within now' ∧
      later.Underway tbl acc loose after g start own loops (exits.or exits') stopped now')
      (Expected tbl loose) := by
  have hloops := h.loops_eq
  subst hloops
  refine (haction now st h.ready h.covers haims).imp ?_
  rintro - later ⟨stopped, now', hstops, hlater⟩
  exact ⟨stopped, now', hstops, hlater.grown.toWithin, h.trans hlater⟩

end

section

variable (h : st.Underway tbl acc loose Γ g start (id :: own) loops exits stopped now)
include h

lemma enter_underway : Ends (enter id) st (fun stays later => ∃ now', now.Within now' ∧
      later.Underway tbl acc loose Γ g start own loops exits (!stays) now' ∧ (stays = true → id ∈ now'.names) ∧
        (stays = false → stopped = true ∧ id ∉ now'.targets)) (Expected tbl loose) := by
  refine (enter_ready h.ready (h.grown.mem_pending (.head _))).imp ?_
  rintro stays later ⟨hkeeps, hpost⟩
  cases stays with
  | true =>
    obtain ⟨hready, -⟩ := hpost
    have hsub : now.Within ((now.leave stopped id).enter id) := (Graph.Within.refl now).leave.enter
    refine ⟨_, hsub, h.keeps hready h.grown.leave.enter hsub hkeeps, fun _ => ?_, nofun⟩
    rw [Graph.names_enter]
    exact mem_append_right _ (mem_singleton_self id)
  | false =>
    obtain ⟨hstop, hnot, hready⟩ := hpost
    have hsub : now.Within (now.drop id) := ⟨fun _ hm => hm, fun _ hm => hm⟩
    exact ⟨now.drop id, hsub, h.keeps hready h.grown.drop hsub hkeeps, nofun, fun _ => ⟨hstop, hnot⟩⟩

/-- Behind a block that is passed something is open, unless nothing jumps to
the block. -/
lemma pass_underway : Ends (pass id) st (fun _ later => ∃ stopped' now',
      later.Underway tbl acc loose Γ g start own loops exits stopped' now' ∧ now.Within now' ∧
        (stopped' = false → id ∈ now'.names) ∧ (stopped' = true → stopped = true ∧ id ∉ now.targets))
      (Expected tbl loose) := by
  refine (enter_underway h).bind ?_
  rintro stays later ⟨now', hsub, hlater, hnames, hdropped⟩
  refine .pure ⟨!stays, now', hlater, hsub, fun hopen => hnames (by simpa using hopen), fun hstop => ?_⟩
  obtain ⟨hstop, hnot⟩ := hdropped (by simpa using hstop)
  exact ⟨hstop, fun hm => hnot (hsub.targets hm)⟩

/-- A block is filled or, if nothing jumps to it, goes. -/
lemma fill_underway {good : Unit → LoweringState → Prop}
    (hstays : ∀ later now', later.Underway tbl acc loose Γ g start own loops exits false now' →
      now.Within now' → id ∈ now'.names → Ends act later good (Expected tbl loose))
    (hdrops : ∀ later now', later.Underway tbl acc loose Γ g start own loops exits true now' →
      now.Within now' → stopped = true → id ∉ now'.targets → good () later) :
    Ends (fill id act) st good (Expected tbl loose) := by
  refine (enter_underway h).bind ?_
  rintro stays later ⟨now', hsub, hlater, hnames, hdropped⟩
  cases stays with
  | true => exact hstays later now' hlater hsub (hnames rfl)
  | false =>
    obtain ⟨hstop, hnot⟩ := hdropped rfl
    exact .pure (hdrops later now' hlater hsub hstop hnot)

/-- A block to which something jumps is filled with a statement. -/
lemma fillStatement_underway {body : Lower Unit} (hreached : stopped = true → id ∈ now.targets)
    (hbody : Completes tbl acc loose Γ after stops exits' body) (hafter : Γ ⊆ after)
    (haims : ∀ now', now.Within now' → g.Grown own now' → id ∈ now'.names → now'.Aims exits' loops) :
    Ends (fill id body) st (fun _ later => ∃ stopped' now', (stopped' = true → stops = true) ∧ now.Within now' ∧
      id ∈ now'.names ∧ later.Underway tbl acc loose Γ g start own loops (exits.or exits') stopped' now')
      (Expected tbl loose) := by
  refine fill_underway h (fun entered now₁ h₁ hw₁ hname => ?_) fun _ now₁ _ hw₁ hstop hnot => ?_
  · refine (statement_underway h₁ hbody (haims now₁ hw₁ h₁.grown hname)).imp ?_
    rintro - later ⟨stopped', now₂, hstops, hw₂, h₂⟩
    exact ⟨stopped', now₂, hstops, hw₁.trans hw₂, hw₂.names hname, h₂.mono hafter⟩
  · exact absurd (hw₁.targets (hreached hstop)) hnot

end

/-! ## Simple statements -/

section

lemma discard_completes {act : Lower ObjectId} (h : YieldsValue tbl acc loose Γ act type) :
    Completes tbl acc loose Γ Γ false .never (discard act) := by
  intro g st hready hc _
  have hleaves : Ends act st (fun _ later => ∃ stopped now, (stopped = true → false = true) ∧
      later.Underway tbl acc loose Γ g st [] st.loops .never stopped now)
      (Expected tbl loose) := by
    refine (emits_underway (.refl hready hc) (h g st hready hc)).imp ?_
    rintro - later ⟨now, hlater, -, -⟩
    exact ⟨false, now, nofun, hlater⟩
  exact hleaves.bind fun _ _ hpost => .pure hpost

lemma declare_underway {dst : ObjectId} (h : st.Underway tbl acc loose Γ g start own loops exits stopped now)
    (hdst : st.builder.IsRegister dst (tbl.get sym).type) :
    ({ st with locals := (sym, dst) :: st.locals } : LoweringState).Underway tbl acc loose (sym :: Γ) g
      start own loops exits stopped now := by
  have hfollows : st.Follows { st with locals := (sym, dst) :: st.locals } := ⟨rfl, .refl _, [(sym, dst)], rfl⟩
  obtain ⟨order, hholds⟩ := h.ready.holds
  refine ⟨⟨⟨order, hholds.draws, hholds.current, fun pair hm => ?_, hholds.admits⟩, h.ready.terminated,
    h.ready.formed⟩,
    h.grown, h.follows.trans hfollows, h.loops_eq, (h.covers.follows hfollows).imp_right
    fun hcovers other hm => ?_, h.breaks, h.continues⟩
  · rcases mem_cons.mp hm with rfl | hm
    · exact hdst
    · exact hholds.locals pair hm
  · rcases mem_cons.mp hm with rfl | hm
    · simp
    · exact hcovers other hm

lemma declaration_completes {ini? : Option Node} (hv : (tbl.get sym).type.Valid)
    (hvoid : (tbl.get sym).type.isVoid = false)
    (hval : ∀ val ∈ ini?, YieldsValue tbl acc loose Γ (val.lowered tbl).expression (tbl.get sym).type) :
    Completes tbl acc loose Γ (sym :: Γ) false .never (declaration tbl sym (ini?.map (lowered tbl))) := by
  intro g st hready hc _
  refine (emits_underway (.refl hready hc) (newRegister_emits hready _)).bind ?_
  rintro dst made ⟨now, hmade, -, hdst⟩
  have hdecls := declare_underway hmade hdst
  change Ends (forSome (ini?.map (lowered tbl)) (firstValue dst)) { made with locals := (sym, dst) ::
    made.locals } _ _
  cases ini? with
  | none => exact .pure ⟨false, now, nofun, hdecls⟩
  | some val =>
    have hscope := hdecls.covers.mono fun _ hm => mem_cons_of_mem sym hm
    have hinitial : Emits tbl acc loose (firstValue dst (val.lowered tbl)) now
        { made with locals := (sym, dst) :: made.locals } fun _ _ => True := by
      refine (hval val rfl _ _ hdecls.ready hscope).bind fun src _ _ h₁ hk₁ hsource => ?_
      exact emitMove_emits h₁ hv hvoid (hdst.grows hk₁.grows) hsource rfl
    refine (emits_underway hdecls hinitial).imp ?_
    rintro - later ⟨now', hlater, -, -⟩
    exact ⟨false, now', nofun, hlater⟩

/-- The accesses of a return are allowed. -/
def Returns (table : SymbolTable) (acc : Accesses) : Prop :=
  ∀ offset width, resultOffset? table = some offset → acc.writes offset width

lemma storeResult_emits {val : Node} (hr : Returns tbl acc) (h : st.Ready tbl acc false g)
    (hc : st.Covers loose Γ) (hv : val.type.Valid) (hvoid : val.type.isVoid = false)
    (hval : YieldsValue tbl acc loose Γ (val.lowered tbl).expression val.type) :
    Emits tbl acc loose (storeResult tbl lbl (val.lowered tbl)) g st fun _ _ => True := by
  unfold storeResult
  cases hoffset : resultOffset? tbl with
  | none => exact .throw (.missingResult _)
  | some off =>
    refine (hval g st h hc).bind fun src _ _ h₁ _ hsource => (memberOperand_emits h₁ off).bind
      fun mem _ _ h₂ hk₂ hmem => ?_
    rw [← hk₂.base] at hmem
    exact emitStore_emits h₂ hv hvoid hmem (hsource.grows hk₂.grows) fun width _ => hr off width hoffset

lemma return_completes {value? : Option Node} (hr : Returns tbl acc)
    (hval : ∀ val ∈ value?, val.type.Valid ∧ val.type.isVoid = false ∧
      YieldsValue tbl acc loose Γ (val.lowered tbl).expression val.type) :
    Completes tbl acc loose Γ Γ true .never (returnStatement tbl lbl (value?.map (lowered tbl))) := by
  intro g st hready hc _
  have hstore : Emits tbl acc loose (forSome (value?.map (lowered tbl)) (storeResult tbl lbl)) g st
      fun _ _ => True := by
    cases value? with
    | none => exact .pure hready trivial
    | some val =>
      obtain ⟨hv, hvoid, hyields⟩ := hval val rfl
      exact storeResult_emits hr hready hc hv hvoid hyields
  refine (emits_underway (.refl hready hc) hstore).bind ?_
  rintro - stored ⟨now, hsto, -, -⟩
  obtain ⟨order, hholds⟩ := hsto.ready.holds
  refine (close_holds hholds hsto.ready.terminated rfl (by simp [maxOperands]) (forall_mem_nil _)).imp ?_
  rintro - later ⟨hlater, hkeeps, hclosed⟩
  have hready : later.Ready tbl acc true (now.emit [.ret]) :=
    ⟨⟨order, hlater⟩, hclosed, hsto.ready.formed.close .ret (nil_subset _)⟩
  exact ⟨true, _, fun _ => rfl, hsto.keeps hready (hsto.grown.emit _) ((Graph.Within.refl _).emit _) hkeeps⟩

/-- `break` and `continue`. -/
lemma jump_completes {tgt : LoopTargets → ObjectId} (hne : exits ≠ .never)
    (htgt : ∀ {g : Graph} {targets : LoopTargets}, targets.breakTo ∈ g.ids ∧ targets.continueTo ∈ g.ids →
      tgt targets ∈ g.ids)
    (hbreaks : exits.breaks = true → tgt = (·.breakTo)) (hcontinues : exits.continues = true →
      tgt = (·.continueTo)) :
    Completes tbl acc loose Γ Γ true exits (jumpStatement lbl tgt) := by
  intro g st hready hc haims
  refine .read ?_
  cases hloops : st.loops with
  | nil => exact absurd hloops (haims.1 hne)
  | cons targets rest =>
    have hhead : targets ∈ st.loops.head? := by rw [hloops]; rfl
    have hjump := jumpIfOpen_underway (.refl hready hc) (htgt (haims.2 targets hhead))
    change Ends (if !st.terminated then jump _ else pure ()) st _ _ at hjump
    rw [hready.terminated] at hjump
    refine hjump.imp ?_
    rintro - later ⟨now, hway, -, htargets⟩
    rw [hloops] at hway
    refine ⟨true, now, fun _ => rfl, { hway with breaks := ?_, continues := ?_ }⟩
    · intro hb other hm
      cases hm
      obtain rfl := hbreaks hb
      exact htargets rfl
    · intro hcontinue other hm
      cases hm
      obtain rfl := hcontinues hcontinue
      exact htargets rfl

end

/-! ## Statements in a row -/

lemma sequence_completes {nodes : List Node} (hlast : ∀ node ∈ nodes.dropLast, node.stops = false)
    (hscope : loose ∨ Node.ScopedAll tbl Γ nodes)
    (hnodes : ∀ node ∈ nodes, ∀ Γ, loose ∨ node.Scoped tbl Γ → Completes tbl acc loose Γ
      (node.initExports ++ Γ) node.stops node.exits (node.lowered tbl).statement) :
    Completes tbl acc loose Γ (nodes.flatMap Node.exports ++ Γ) (nodes.any Node.stops) (Node.exitsAll nodes)
      ((nodes.map (Node.lowered tbl)).forM (·.statement)) := by
  induction nodes generalizing Γ with
  | nil =>
    intro g st hready hc _
    exact .pure ⟨false, g, nofun, .refl hready hc⟩
  | cons node rest ih =>
    intro g st hready hc haims
    have hexp : node.exports ++ Γ ⊆ node.initExports ++ Γ :=
      append_subset.mpr ⟨fun _ hm => mem_append_left _ (node.exports_subset_initExports hm),
        subset_append_right ..⟩
    have hfirst := hnodes node (.head _) Γ (hscope.imp_right And.left)
    rw [List.map_cons, List.forM]
    refine (hfirst g st hready hc (haims.mono (fun _ hm => hm) fun hne heq => hne (or_eq_never.mp heq).1)).bind ?_
    rintro - mid ⟨stopped, now, hstops, hmid⟩
    cases rest with
    | nil =>
      refine .pure ⟨stopped, now, fun hstop => by simp [hstops hstop], ?_⟩
      rw [Node.exitsAll_cons, Node.exitsAll_nil, or_never, flatMap_singleton]
      exact hmid.mono hexp
    | cons next rest =>
      -- The first statement does not stop, as another one comes behind it.
      obtain rfl : stopped = false := by
        rw [Bool.eq_false_iff]
        intro hstop
        rw [hlast node (.head _)] at hstops
        exact Bool.false_ne_true (hstops hstop)
      have hrest := ih (forall_mem_cons.mp hlast).2 (hscope.imp_right And.right) (forall_mem_cons.mp hnodes).2
      have haims' := haims.mono hmid.grown.ids fun hne heq => hne (or_eq_never.mp heq).2
      refine (statement_underway (hmid.mono hexp) hrest haims').imp ?_
      rintro - later ⟨stopped, now', hstops', -, hlater⟩
      refine ⟨stopped, now', fun hstop => ?_, hlater.mono ?_⟩
      · rw [any_cons, hstops' hstop, Bool.or_true]
      · intro sym hm
        rw [flatMap_cons] at hm
        simp only [mem_append] at hm ⊢
        tauto

/-! ## Branches -/

/-- How an arm of a branch is lowered. -/
def ArmCompletes (table : SymbolTable) (acc : Accesses) (unscoped : Prop) (scope : List SymbolId) (arm : Node) :
    Prop :=
  ∃ cond? body, arm.form = .arm cond? body ∧ arm.stops = body.stops ∧ arm.exits = body.exits ∧
    (∀ cond ∈ cond?, YieldsValue table acc unscoped scope (cond.lowered table).expression cond.type) ∧
    Completes table acc unscoped scope (body.initExports ++ scope) body.stops body.exits
    (body.lowered table).statement

/-- An arm with a condition.  Something is open behind it, and if its body does
not stop, it jumps to the join. -/
lemma conditionalArm_underway {cond : Lower ObjectId} {body : Lower Unit}
    (h : st.Underway tbl acc loose Γ g start own loops exits false now) (hjoin : join ∈ own)
    (haims : g.Aims exits' loops) (hcond : YieldsValue tbl acc loose Γ cond type)
    (hbody : Completes tbl acc loose Γ after stops exits' body) (hafter : Γ ⊆ after) :
    Ends (do
      let val ← cond
      let taken ← build Build.newBlock
      let next ← build Build.newBlock
      branch val taken next
      fill taken body
      jumpIfOpen join
      pass next) st (fun _ later => ∃ now', later.Underway tbl acc loose Γ g start own loops (exits.or exits')
      false now' ∧ now.Within now' ∧ (stops = false → join ∈ now'.targets)) (Expected tbl loose) := by
  refine (emits_underway h (hcond now st h.ready h.covers)).bind ?_
  rintro val tested ⟨now₁, h₁, hw₁, hval⟩
  refine (newBlock_underway h₁).bind ?_
  rintro taken made ⟨h₂, hk₂⟩
  refine (newBlock_underway h₂).bind ?_
  rintro next made' ⟨h₃, hk₃⟩
  refine (branch_underway h₃ ((hval.grows hk₂.grows).grows hk₃.grows) (h₃.grown.mem_ids (by simp))
    (h₃.grown.mem_ids (by simp))).bind ?_
  rintro - chosen ⟨now₄, h₄, hw₄, htaken, hnext⟩
  refine (fillStatement_underway (h₄.perm (.swap ..)) (fun _ => htaken) hbody hafter fun now' _ hgrown _ =>
    haims.mono hgrown.ids fun hne => hne).bind ?_
  rintro - left ⟨stopped, now₅, hstops, hw₅, -, h₅⟩
  refine (jumpIfOpen_underway h₅ (h₅.grown.mem_ids (.tail _ hjoin))).bind ?_
  rintro - closed ⟨now₆, h₆, hw₆, hjumps⟩
  refine (pass_underway h₆).imp ?_
  rintro - later ⟨stopped', now₇, h₇, hw₇, -, hpassed⟩
  obtain rfl : stopped' = false := by
    rw [Bool.eq_false_iff]
    exact fun hstop => (hpassed hstop).2 ((hw₅.trans hw₆).targets hnext)
  refine ⟨now₇, h₇, ((hw₁.trans hw₄.of_add.of_add).trans hw₅).trans (hw₆.trans hw₇), fun hopen =>
    hw₇.targets (hjumps ?_)⟩
  rw [Bool.eq_false_iff]
  intro hstop
  rw [hstops hstop] at hopen
  cases hopen

lemma arms_underway (harms : ∀ arm ∈ arms, ArmCompletes tbl acc loose Γ arm)
    (helse : ∀ arm ∈ arms.dropLast, arm.form.isElse = false)
    (h : st.Underway tbl acc loose Γ g start own loops exits false now) (hjoin : join ∈ own)
    (haims : g.Aims (exitsAll arms) loops) :
    Ends ((arms.map (lowered tbl)).forM (arm join)) st (fun _ later => ∃ stopped now',
      later.Underway tbl acc loose Γ g start own loops (exits.or (exitsAll arms)) stopped now' ∧
        now.Within now' ∧ (stopped = true → join ∉ now'.targets → stopsArms arms = true))
        (Expected tbl loose) := by
  induction arms generalizing st now exits with
  | nil =>
    refine .pure ⟨false, now, ?_, .refl now, nofun⟩
    rw [exitsAll_nil, or_never]
    exact h
  | cons first rest ih =>
    obtain ⟨cond?, body, hform, hstopsEq, hexitsEq, hcond, hbody⟩ := harms first (.head _)
    have hfirst := haims.mono (fun _ hm => hm) fun hne heq => hne (hexitsEq ▸ (or_eq_never.mp heq).1)
    rw [List.map_cons, List.forM, arm, arm?_lowered, hform]
    cases cond? with
    | none =>
      obtain rfl : rest = [] := by
        cases rest with
        | nil => rfl
        | cons next rest =>
          have hnot := helse first (.head _)
          rw [hform] at hnot
          cases hnot
      refine (statement_underway h hbody (hfirst.mono h.grown.ids fun hne => hne)).bind ?_
      rintro - later ⟨stopped, now', hstops, hsub, hlater⟩
      refine .pure ⟨stopped, now', ?_, hsub, fun hstop _ => ?_⟩
      · rw [exitsAll_cons, exitsAll_nil, or_never, hexitsEq]
        exact hlater.mono (subset_append_right ..)
      · rw [stopsArms, hstopsEq, hstops hstop, hform]
        rfl
    | some cond =>
      refine (conditionalArm_underway h hjoin hfirst (hcond cond rfl) hbody (subset_append_right ..)).bind ?_
      rintro - mid ⟨now', hmid, hsub, hjumps⟩
      refine (ih (forall_mem_cons.mp harms).2 (fun arm hm => ?_) hmid
        (haims.mono (fun _ hm => hm) fun hne heq => hne (or_eq_never.mp heq).2)).imp ?_
      · cases rest with
        | nil => cases hm
        | cons next rest => exact helse arm (.tail _ hm)
      · rintro - later ⟨stopped, last, hlater, hwithin', hstops⟩
        refine ⟨stopped, last, ?_, hsub.trans hwithin', fun hstop hnot => ?_⟩
        · rwa [exitsAll_cons, hexitsEq, ← LoopExits.or_assoc]
        · rw [stopsArms, hstops hstop hnot, hstopsEq, Bool.or_true, Bool.and_true]
          by_contra hopen
          exact hnot (hwithin'.targets (hjumps (Bool.eq_false_iff.mpr hopen)))

lemma branch_completes (harms : ∀ arm ∈ arms, ArmCompletes tbl acc loose Γ arm)
    (helse : ∀ arm ∈ arms.dropLast, arm.form.isElse = false) :
    Completes tbl acc loose Γ Γ (stopsArms arms) (exitsAll arms)
      (branchStatement (arms.map (lowered tbl))) := by
  intro g st hready hc haims
  refine (newBlock_underway (.refl hready hc)).bind ?_
  rintro join made ⟨hmade, -⟩
  refine (arms_underway harms helse hmade (mem_singleton_self join) haims).bind ?_
  rintro - mid ⟨stopped, now, hmid, -, hstops⟩
  refine (pass_underway hmid).imp ?_
  rintro - later ⟨stopped', now', hlater, -, -, hpassed⟩
  exact ⟨stopped', now', fun hstop => hstops (hpassed hstop).1 (hpassed hstop).2, hlater⟩

/-! ## Loops -/

section

variable (h : st.Underway tbl acc loose Γ g start own loops exits stopped now)
include h

lemma newBlockIf_underway {part? : Option α} :
    Ends (newBlockIf part?) st (fun id? later => id?.isSome = part?.isSome ∧ ∃ now',
      later.Underway tbl acc loose Γ g start (id?.toList ++ own) loops exits stopped now')
      (Expected tbl loose) := by
  cases part? with
  | none => exact .pure ⟨rfl, now, h⟩
  | some part => exact (newBlock_underway h).bind fun id later hlater => .pure ⟨rfl, _, hlater.1⟩

lemma newLoopBlocks_underway {cond? step? : Option Lowered} :
    Ends (newLoopBlocks cond? step?) st (fun blocks later => blocks.test?.isSome = cond?.isSome ∧
      blocks.step?.isSome = step?.isSome ∧ ∃ now', later.Underway tbl acc loose Γ g start
        (blocks.exit :: (blocks.step?.toList ++ blocks.entry :: (blocks.test?.toList ++ own))) loops exits
        stopped now')
      (Expected tbl loose) := by
  refine (newBlockIf_underway h).bind ?_
  rintro test? _ ⟨htest, _, h₁⟩
  refine (newBlock_underway h₁).bind ?_
  rintro entry _ ⟨h₂, -⟩
  refine (newBlockIf_underway h₂).bind ?_
  rintro step? _ ⟨hstep, _, h₃⟩
  refine (newBlock_underway h₃).bind ?_
  rintro exit _ ⟨h₄, -⟩
  exact .pure ⟨htest, hstep, _, h₄⟩

end

lemma testCondition_underway {cond : Lowered}
    (h : st.Underway tbl acc loose Γ g start own loops exits false now)
    (hcond : YieldsValue tbl acc loose Γ cond.expression type)
    (hentry : ∀ now', now.Within now' → g.Grown own now' → blocks.entry ∈ now'.ids)
    (hexit : ∀ now', now.Within now' → g.Grown own now' → blocks.exit ∈ now'.ids) :
    Ends (testCondition cond blocks) st (fun _ later => ∃ now',
      later.Underway tbl acc loose Γ g start own loops exits true now' ∧ now.Within now' ∧
        blocks.entry ∈ now'.targets ∧ blocks.exit ∈ now'.targets) (Expected tbl loose) := by
  refine (emits_underway h (hcond now st h.ready h.covers)).bind ?_
  rintro val mid ⟨now₁, h₁, hw₁, hval⟩
  refine (branch_underway h₁ hval (hentry now₁ hw₁ h₁.grown) (hexit now₁ hw₁ h₁.grown)).imp ?_
  rintro - later ⟨now₂, h₂, hw₂, htgts⟩
  exact ⟨now₂, h₂, hw₁.trans hw₂, htgts⟩

section

variable {kind : LoopKind} {cond? : Option Node}
  (hcond : ∀ cond ∈ cond?, YieldsValue tbl acc loose Γ (cond.lowered tbl).expression cond.type)
  (htest : blocks.test?.isSome = cond?.isSome)

include hcond htest

lemma testFirst_underway
    (h : st.Underway tbl acc loose Γ g start ((if kind.isPretest then blocks.test?.toList else []) ++ own) loops
      exits false now) (hentry : blocks.entry ∈ own) (hexit : blocks.exit ∈ own) :
    Ends (testFirst kind (cond?.map (lowered tbl)) blocks) st (fun _ later => ∃ stopped now',
      later.Underway tbl acc loose Γ g start own loops exits stopped now' ∧
        (stopped = true → blocks.entry ∈ now'.targets) ∧
        (kind.isPretest = true → ∀ test ∈ blocks.test?, test ∈ now'.names ∧ blocks.exit ∈ now'.targets))
      (Expected tbl loose) := by
  obtain ⟨test?, entry, step?, exit⟩ := blocks
  unfold testFirst
  cases hkind : kind.isPretest with
  | false =>
    rw [hkind] at h
    exact .pure ⟨false, now, h, nofun, nofun⟩
  | true =>
    rw [hkind] at h
    rcases parts_cases htest with ⟨rfl, rfl⟩ | ⟨test, cond, rfl, rfl⟩
    · exact .pure ⟨false, now, h, nofun, nofun⟩
    · refine (pass_underway h).bind ?_
      rintro - passed ⟨stopped, now₁, h₁, hw₁, hname, hpassed⟩
      obtain rfl : stopped = false := by
        rw [Bool.eq_false_iff]
        exact fun hstop => Bool.false_ne_true (hpassed hstop).1
      refine (testCondition_underway h₁ (hcond cond rfl) (fun _ _ hgrown => hgrown.mem_ids hentry)
        fun _ _ hgrown => hgrown.mem_ids hexit).imp ?_
      rintro - later ⟨now₂, h₂, hw₂, htgts⟩
      refine ⟨true, now₂, h₂, fun _ => htgts.1, fun _ other hm => ?_⟩
      cases hm
      exact ⟨hw₂.names (hname rfl), htgts.2⟩

/-- The test behind the last round, or a jump back. -/
lemma endRound_underway
    (h : st.Underway tbl acc loose Γ g start ((if kind.isPretest then [] else blocks.test?.toList) ++ own) loops
      exits stopped now) (hentry : blocks.entry ∈ now.names) (hexit : blocks.exit ∈ own)
    (hlatch : kind.isPretest = true → ∀ test ∈ blocks.test?, test ∈ now.names) :
    Ends (endRound kind (cond?.map (lowered tbl)) blocks) st (fun _ later => ∃ now',
      later.Underway tbl acc loose Γ g start own loops exits true now' ∧ now.Within now' ∧
        (kind.isPretest = false → ∀ test ∈ blocks.test?, blocks.exit ∉ now'.targets → stopped = true ∧
          test ∉ now.targets))
      (Expected tbl loose) := by
  obtain ⟨test?, entry, step?, exit⟩ := blocks
  have hback (hid : (LoopBlocks.mk test? entry step? exit).latch ∈ now.names)
      (h : st.Underway tbl acc loose Γ g start own loops exits stopped now)
      (hnone : kind.isPretest = false → test? = none) :
      Ends (jumpIfOpen (LoopBlocks.mk test? entry step? exit).latch) st (fun _ later => ∃ now',
        later.Underway tbl acc loose Γ g start own loops exits true now' ∧ now.Within now' ∧
          (kind.isPretest = false → ∀ test ∈ test?, exit ∉ now'.targets → stopped = true ∧
            test ∉ now.targets))
        (Expected tbl loose) := by
    refine (jumpIfOpen_underway h (Graph.mem_ids_of_names hid)).imp ?_
    rintro - later ⟨now', hlater, hsub, -⟩
    refine ⟨now', hlater, hsub, fun hkind test hm => ?_⟩
    rw [hnone hkind] at hm
    cases hm
  unfold endRound
  cases hkind : kind.isPretest with
  | true =>
    rw [hkind] at h hback hlatch
    refine hback ?_ h nofun
    cases test? with
    | none => exact hentry
    | some test => exact hlatch rfl test rfl
  | false =>
    rw [hkind] at h hback
    rcases parts_cases htest with ⟨rfl, rfl⟩ | ⟨test, cond, rfl, rfl⟩
    · exact hback hentry h fun _ => rfl
    · refine fill_underway h (fun entered now₁ h₁ hw₁ _ => ?_) fun later now' hlater hsub hstop hnot => ?_
      · refine (testCondition_underway h₁ (hcond cond rfl)
          (fun _ hsub _ => Graph.mem_ids_of_names ((hw₁.trans hsub).names hentry)) fun _ _ hgrown =>
          hgrown.mem_ids hexit).imp ?_
        rintro - later ⟨now₂, h₂, hw₂, htgts⟩
        exact ⟨now₂, h₂, hw₁.trans hw₂, fun _ _ _ hnot => absurd htgts.2 hnot⟩
      · refine ⟨now', hlater, hsub, fun _ other hm _ => ?_⟩
        cases hm
        exact ⟨hstop, fun hm => hnot (hsub.targets hm)⟩

end

lemma stepRound_underway
    (hstep : ∀ step ∈ step?, YieldsValue tbl acc loose Γ (step.lowered tbl).expression step.type)
    (hblk : blocks.step?.isSome = step?.isSome)
    (h : st.Underway tbl acc loose Γ g start (blocks.step?.toList ++ own) loops exits stopped now) :
    Ends (stepRound (step?.map (lowered tbl)) blocks) st (fun _ later => ∃ stopped' now',
      later.Underway tbl acc loose Γ g start own loops exits stopped' now' ∧ now.Within now' ∧
        (stopped' = true → stopped = true ∧ ∀ block ∈ blocks.step?, block ∉ now.targets))
        (Expected tbl loose) := by
  obtain ⟨test?, entry, block?, exit⟩ := blocks
  unfold stepRound
  rcases parts_cases hblk with ⟨rfl, rfl⟩ | ⟨block, step, rfl, rfl⟩
  · exact .pure ⟨stopped, now, h, .refl now, fun hstop => ⟨hstop, nofun⟩⟩
  · refine fill_underway h (fun entered now₁ h₁ hw₁ _ => ?_) fun later now' hlater hsub hstop hnot => ?_
    · have hstraight : Ends (step.lowered tbl).expression entered (fun _ later => ∃ stopped' now',
          later.Underway tbl acc loose Γ g start own loops exits stopped' now' ∧ now.Within now' ∧
            (stopped' = true → stopped = true ∧ ∀ other ∈ some block, other ∉ now.targets))
            (Expected tbl loose) := by
        refine (emits_underway h₁ (hstep step rfl now₁ entered h₁.ready h₁.covers)).imp ?_
        rintro - later ⟨now₂, h₂, hw₂, -⟩
        exact ⟨false, now₂, h₂, hw₁.trans hw₂, nofun⟩
      exact hstraight.bind fun _ _ hpost => .pure hpost
    · refine ⟨true, now', hlater, hsub, fun _ => ⟨hstop, fun other hm => ?_⟩⟩
      cases hm
      exact fun hm => hnot (hsub.targets hm)

section

variable {rest : List ObjectId} {body : Lowered}
  (hstep : ∀ step ∈ step?, YieldsValue tbl acc loose Γ (step.lowered tbl).expression step.type)
  (hblk : blocks.step?.isSome = step?.isSome)
  (hbody : Completes tbl acc loose Γ after stops exits body.statement) (hafter : Γ ⊆ after)
  (hreached : stopped = true → blocks.entry ∈ now.targets) (hexit : blocks.exit ∈ rest)
  (htest : ∀ test ∈ blocks.test?, test ∈ now.names ∨ test ∈ rest)

include hexit htest in
/-- The blocks to which the body of a loop can jump. -/
lemma aims_of_grown (now' : Graph) (hsub : now.Within now') (hgrown : g.Grown (blocks.step?.toList ++ rest) now')
    (hname : blocks.entry ∈ now'.names) : now'.Aims exits (blocks.targets :: loops) := by
  refine ⟨fun _ => cons_ne_nil _ _, fun targets hm => ?_⟩
  cases hm
  refine ⟨hgrown.mem_ids (mem_append_right _ hexit), ?_⟩
  obtain ⟨test?, entry, block?, exit⟩ := blocks
  cases block? with
  | some block => exact hgrown.mem_ids (.head _)
  | none =>
    cases test? with
    | none => exact Graph.mem_ids_of_names hname
    | some test =>
      rcases htest test rfl with hm | hm
      · exact Graph.mem_ids_of_names (hsub.names hm)
      · exact hgrown.mem_ids hm

include hstep hblk hbody hafter hreached hexit htest

/-- The body of a loop and its step.  If nothing is open behind them, the body
stops and does not go on to the step. -/
lemma round_underway (h : st.Underway tbl acc loose Γ g start (blocks.entry :: (blocks.step?.toList ++ rest))
      (blocks.targets :: loops) .never stopped now) :
    Ends (do fill blocks.entry body.statement; stepRound (step?.map (lowered tbl)) blocks) st (fun _ later =>
      ∃ stopped' now',
      later.Underway tbl acc loose Γ g start rest (blocks.targets :: loops) exits stopped' now' ∧ now.Within now' ∧
        blocks.entry ∈ now'.names ∧ (stopped' = true → stops = true ∧
          (exits.continues = true → blocks.latch ∈ now'.targets)))
      (Expected tbl loose) := by
  refine (fillStatement_underway h hreached hbody hafter (aims_of_grown hexit htest)).bind ?_
  rintro - mid ⟨stopped₁, now₁, hstops, hw₁, hname, h₁⟩
  refine (stepRound_underway hstep hblk h₁).imp ?_
  rintro - later ⟨stopped₂, now₂, h₂, hw₂, hdropped⟩
  refine ⟨stopped₂, now₂, h₂, hw₁.trans hw₂, hw₂.names hname, fun hstop => ⟨hstops (hdropped hstop).1,
    fun hcontinues => ?_⟩⟩
  have htgt := h₁.continues hcontinues blocks.targets rfl
  obtain ⟨test?, entry, block?, exit⟩ := blocks
  cases block? with
  | some block => exact absurd htgt ((hdropped hstop).2 block rfl)
  | none => exact hw₂.targets htgt

lemma inLoop_underway
    (h : st.Underway tbl acc loose Γ g start (blocks.entry :: (blocks.step?.toList ++ rest)) loops .never
      stopped now) :
    Ends (inLoop blocks do
      fill blocks.entry body.statement
      stepRound (step?.map (lowered tbl)) blocks) st (fun _ later => ∃ stopped' now',
        later.Underway tbl acc loose Γ g start rest loops .never stopped' now' ∧ now.Within now' ∧
          blocks.entry ∈ now'.names ∧ (exits.breaks = true → blocks.exit ∈ now'.targets) ∧
          (stopped' = true → stops = true ∧ (exits.continues = true → blocks.latch ∈ now'.targets)))
      (Expected tbl loose) := by
  have hloops := h.loops_eq
  subst hloops
  have hround := round_underway hstep hblk hbody hafter hreached hexit htest
    (h.withLoops (blocks.targets :: st.loops))
  -- The targets are put in front before the round and taken off behind it.
  change Ends ((do fill blocks.entry body.statement; stepRound (step?.map (lowered tbl)) blocks) >>= fun _ =>
    modify fun st => { st with loops := st.loops.tail }) { st with loops := blocks.targets :: st.loops } _ _
  refine Ends.bind hround ?_
  rintro - later ⟨stopped', now', hlater, hsub, hname, hstops⟩
  have hpopped := hlater.withLoops later.loops.tail
  have htail : later.loops.tail = st.loops := by rw [hlater.loops_eq, tail_cons]
  exact ⟨stopped', now', htail ▸ hpopped, hsub, hname, fun hbreaks => hlater.breaks hbreaks blocks.targets rfl,
    hstops⟩

end

lemma loop_completes {kind : LoopKind} {init? cond? step? : Option Node} {body : Node}
    (hinit : ∀ init ∈ init?, Completes tbl acc loose Γ (init.initExports ++ Γ) false .never
      (init.lowered tbl).statement)
    (hcond : ∀ cond ∈ cond?, YieldsValue tbl acc loose ((init?.map initExports).getD [] ++ Γ)
      (cond.lowered tbl).expression cond.type)
    (hstep : ∀ step ∈ step?, YieldsValue tbl acc loose ((init?.map initExports).getD [] ++ Γ)
      (step.lowered tbl).expression step.type)
    (hbody : Completes tbl acc loose ((init?.map initExports).getD [] ++ Γ)
      (body.initExports ++ ((init?.map initExports).getD [] ++ Γ)) body.stops body.exits
      (body.lowered tbl).statement) :
    Completes tbl acc loose Γ Γ (loopStops kind cond?.isSome body.stops body.exits) .never
      (loop kind (init?.map (lowered tbl)) (cond?.map (lowered tbl)) (step?.map (lowered tbl))
        (body.lowered tbl)) := by
  intro g st hready hc haims
  unfold loop
  generalize hin : (init?.map initExports).getD [] ++ Γ = inside at hcond hstep hbody
  have hstarts : Ends (forSome (init?.map (lowered tbl)) (·.statement)) st (fun _ later => ∃ now,
      later.Underway tbl acc loose inside g st [] st.loops .never false now) (Expected tbl loose) := by
    cases init? with
    | none =>
      subst hin
      exact .pure ⟨g, .refl hready hc⟩
    | some init =>
      subst hin
      refine (hinit init rfl g st hready hc haims).imp ?_
      rintro - later ⟨stopped, now, hstops, hlater⟩
      obtain rfl : stopped = false := by
        rw [Bool.eq_false_iff]
        exact fun hstop => Bool.false_ne_true (hstops hstop)
      exact ⟨now, hlater⟩
  refine hstarts.bind ?_
  rintro - begun ⟨now, hbegun⟩
  refine (newLoopBlocks_underway hbegun).bind ?_
  rintro blocks made ⟨htest, hsteps, now₁, h₁⟩
  rw [isSome_map] at htest hsteps
  -- The blocks are entered in the order test, body, step, test, exit.
  have hperm : (blocks.exit :: (blocks.step?.toList ++ blocks.entry :: (blocks.test?.toList ++ []))).Perm
      ((if kind.isPretest then blocks.test?.toList else []) ++ blocks.entry :: (blocks.step?.toList ++
        ((if kind.isPretest then [] else blocks.test?.toList) ++ [blocks.exit]))) := by
    rw [perm_iff_count]
    intro id
    cases kind.isPretest <;> simp [count_cons] <;> omega
  refine (testFirst_underway hcond htest (h₁.perm hperm) (.head _) (by simp)).bind ?_
  rintro - tested ⟨stopped₂, now₂, h₂, hreached, hpretest⟩
  refine (inLoop_underway hstep hsteps hbody (subset_append_right ..) hreached (by simp)
    (fun test hm => ?_) h₂).bind ?_
  · cases hkind : kind.isPretest with
    | true => exact .inl (hpretest hkind test hm).1
    | false => exact .inr (mem_append_left _ (by simpa using hm))
  rintro - rounded ⟨stopped₃, now₃, h₃, hw₃, hname, hbreaks, hstops⟩
  refine (endRound_underway hcond htest h₃ hname (.head _)
    fun hkind test hm => hw₃.names (hpretest hkind test hm).1).bind ?_
  rintro - ended ⟨now₄, h₄, hw₄, hposttest⟩
  refine (pass_underway h₄).imp ?_
  rintro - later ⟨stopped₅, now₅, h₅, -, -, hpassed⟩
  refine ⟨stopped₅, now₅, fun hstop => ?_, h₅.mono (hin ▸ subset_append_right ..)⟩
  -- Nothing jumps to the exit, so no test and no `break` was there.
  have hnot := (hpassed hstop).2
  have hnobreak : body.exits.breaks = false := by
    rw [Bool.eq_false_iff]
    exact fun hb => hnot (hw₄.targets (hbreaks hb))
  rw [loopStops, hnobreak]
  cases htested : cond?.isSome with
  | false => rfl
  | true =>
    rw [htested] at htest
    obtain ⟨test, htest⟩ := isSome_iff_exists.mp htest
    cases hkind : kind.isPretest with
    | true => exact absurd (hw₄.targets (hw₃.targets (hpretest hkind test htest).2)) hnot
    | false =>
      obtain ⟨hclosed, hnotest⟩ := hposttest hkind test htest hnot
      have hnocontinue : body.exits.continues = false := by
        rw [Bool.eq_false_iff]
        intro hc
        have hlatch := (hstops hclosed).2 hc
        rw [LoopBlocks.latch, htest] at hlatch
        exact hnotest hlatch
      rw [(hstops hclosed).1, hnocontinue]
      rfl

end Lower

/-! ## Trees -/

namespace Node

open Lower

lemma armCompletes_of_lowerable {arm : Node}
    (hn : (mk lbl (.branch arms)).Lowerable tbl acc loose res Γ) (hneat : (mk lbl (.branch arms)).Neat)
    (hm : arm ∈ arms)
    (ih : ∀ part ∈ parts (.branch arms), ∀ Γ, part.Lowerable tbl acc loose res Γ → part.Neat →
      Completes tbl acc loose Γ (part.initExports ++ Γ) part.stops part.exits (part.lowered tbl).statement) :
    ArmCompletes tbl acc loose Γ arm := by
  have hform := hn.typed.rule.1 arm hm
  have harm : arm.Lowerable tbl acc loose res Γ := hn.part rfl hm fun hs => hs arm hm
  have hneatArm := hneat.child hm
  obtain ⟨armLabel, form⟩ := arm
  obtain ⟨cond?, body, heq⟩ := Form.eq_arm_of_isArm hform
  obtain rfl : form = .arm cond? body := heq
  have hbodyChild : body ∈ (Form.arm cond? body).children := by simp [Form.children]
  have hcondChild : ∀ cond ∈ cond?, cond ∈ (Form.arm cond? body).children := fun cond hc => by
    simp [Form.children, mem_def.mp hc]
  have hexpr : ∀ cond ∈ cond?, cond.form.isExpression = true := fun cond hc => (harm.typed.rule.1 cond hc).1
  refine ⟨cond?, body, rfl, stops_mk .., ?_, fun cond hc => ?_, ?_⟩
  · rw [exits_mk]
    cases cond? with
    | none => exact or_never _
    | some cond =>
      have hnever := (exits_tidy_of_isExpression (harm.typed.child (hcondChild cond rfl)) (hexpr cond rfl)).1
      change cond.exits.or (body.exits.or .never) = _
      rw [hnever, never_or, or_never]
  · exact expression_emits (harm.part rfl (hcondChild cond hc) fun hs => hs cond (hcondChild cond hc))
      (hexpr cond hc)
  · exact ih body (mem_flatMap.mpr ⟨_, hm, hbodyChild⟩) Γ (harm.part rfl hbodyChild fun hs => hs body hbodyChild)
      (hneatArm.child hbodyChild)

/-- How a statement is lowered, given how its parts are. -/
lemma statement_completes_of_parts {form : Form Node} (hr : Returns tbl acc)
    (hn : (mk lbl form).Lowerable tbl acc loose res Γ) (hneat : (mk lbl form).Neat) (harm : form.isArm = false)
    (ih : ∀ part ∈ parts form, ∀ Γ, part.Lowerable tbl acc loose res Γ → part.Neat →
      Completes tbl acc loose Γ (part.initExports ++ Γ) part.stops part.exits (part.lowered tbl).statement) :
    Completes tbl acc loose Γ ((mk lbl form).initExports ++ Γ) (mk lbl form).stops (mk lbl form).exits
      ((mk lbl form).lowered tbl).statement := by
  have hexpr (he : form.isExpression = true) : Completes tbl acc loose Γ Γ false .never
      (discard ((mk lbl form).lowered tbl).expression) := discard_completes (expression_emits hn he)
  rw [statement_lowered, stops_mk, exits_mk]
  cases form with
  | program functions | function sym params body => exact hn.typed.rule.elim
  | arm cond? body => cases harm
  | block stmts =>
    refine sequence_completes (neat_mk.mp hneat).1 (hn.inScope.imp_right scoped_mk.mp) fun node hm Γ hs => ?_
    exact ih node hm Γ (hn.inside rfl hm hs) (hneat.child hm)
  | branch arms =>
    exact branch_completes (fun arm hm => armCompletes_of_lowerable hn hneat hm ih) hn.typed.rule.2
  | loop kind init? cond? step? body =>
    obtain ⟨hinit, hcond, hstep, -⟩ := hn.typed.rule
    have hbodyChild : body ∈ (Form.loop kind init? cond? step? body).children := by simp [Form.children]
    refine loop_completes (fun init hm => ?_) (fun cond hm => ?_) (fun step hm => ?_) ?_
    · have hkid : init ∈ (Form.loop kind init? cond? step? body).children := by simp [Form.children, mem_def.mp hm]
      have hcompletes := ih init hkid Γ (hn.part rfl hkid fun hs => hs.1 init hm) (hneat.child hkid)
      rwa [stops_eq_ends, ends_seenBy_of_ends (ends_of_isInit (hinit init hm)),
        (exits_tidy_of_isInit (hn.typed.child hkid) (hinit init hm)).1] at hcompletes
    · exact expression_emits (hn.part rfl (by simp [Form.children, mem_def.mp hm]) fun hs => hs.2.1 cond hm)
        (hcond cond hm).1
    · exact expression_emits (hn.part rfl (by simp [Form.children, mem_def.mp hm]) fun hs => hs.2.2.1 step hm)
        (hstep step hm)
    · exact ih body hbodyChild _ (hn.part rfl hbodyChild fun hs => hs.2.2.2) (hneat.child hbodyChild)
  | breakLoop => exact jump_completes (fun h => by cases h) (fun h => h.1) (fun _ => rfl) (fun h => by cases h)
  | continueLoop => exact jump_completes (fun h => by cases h) (fun h => h.2) (fun h => by cases h) fun _ => rfl
  | returnValue value? =>
    obtain ⟨hsome, htype⟩ := (checked_mk.mp hn.checked).1
    have hnever : exitsAll value?.toList = .never := exitsAll_eq_never fun val hm =>
      (exits_tidy_of_isExpression (hn.typed.child hm) (hn.typed.rule val (mem_toList.mp hm))).1
    change Completes _ _ _ _ _ _ (exitsAll value?.toList) _
    rw [hnever]
    refine return_completes hr fun val hm => ?_
    have hkid : val ∈ (Form.returnValue value?).children := mem_toList.mpr hm
    refine ⟨(hn.typed.child hkid).valid, ?_, expression_emits (hn.part rfl hkid fun hs => hs val hkid)
      (hn.typed.rule val hm)⟩
    rw [mem_def.mp hm] at hsome
    rw [htype val hm]
    simpa using hsome
  | declare sym ini? =>
    obtain ⟨-, hvoid, hv, hinitializer⟩ := hn.typed.rule
    have hnever : exitsAll ini?.toList = .never := exitsAll_eq_never fun val hm =>
      (exits_tidy_of_isExpression (hn.typed.child hm) (hinitializer val (mem_toList.mp hm)).1).1
    change Completes _ _ _ _ _ _ (exitsAll ini?.toList) _
    rw [hnever]
    refine declaration_completes hv hvoid fun val hm => ?_
    have hkid : val ∈ (Form.declare sym ini?).children := mem_toList.mpr hm
    obtain ⟨he, htype⟩ := hinitializer val hm
    rw [← htype]
    exact expression_emits (hn.part rfl hkid fun hs => hs.2 val hm) he
  | _ =>
    have hnever := (exits_tidy_of_isExpression hn.typed rfl).1
    rw [exits_mk] at hnever
    rw [expression_lowered] at hexpr
    rw [hnever]
    exact hexpr rfl

/-- How the statements of a neat tree are lowered. -/
lemma statement_completes (hr : Returns tbl acc) {node : Node} (hn : node.Lowerable tbl acc loose res Γ)
    (hneat : node.Neat) (harm : node.form.isArm = false) :
    Completes tbl acc loose Γ (node.initExports ++ Γ) node.stops node.exits (node.lowered tbl).statement :=
  Typed.parts_induction (motive := fun node => ∀ Γ, node.Lowerable tbl acc loose res Γ → node.Neat →
      Completes tbl acc loose Γ (node.initExports ++ Γ) node.stops node.exits (node.lowered tbl).statement)
    (fun _ _ _ harm ih _ hn hneat => statement_completes_of_parts hr hn hneat harm ih) node hn.typed
    harm Γ hn hneat

end Node

end Shading
