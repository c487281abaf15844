import Shading.Proofs.Lowering.Blocks
import Shading.Proofs.Lowering.Tree
import Shading.Proofs.Tree.Typing

/-!
# Filling blocks

`LoweringState.Ready` says that a state holds a well-formed graph whose current
block is the one to fill, that locals are in registers of their types, and that
the code so far makes only certain accesses to the layout.  Each operation that
lowering uses is described on such states, with the errors it can give: all can
run out of memory, and only moves of values whose size is not that of a register
fail otherwise.  Most emit straight code into the open block (`Lower.Emits`).
`LoweringError.Expected` lists the errors that lowering can give.
-/

namespace Shading

open Build AccessWidth List

variable {opds order : List ObjectId} {opcode : Opcode} {dst src tgt : ObjectId} {type : ValueType}
  {instr : Instruction} {g : Graph} {acc : Accesses} {stopped : Bool} {tbl : SymbolTable}
  {st : LoweringState} {loose : Prop}

/-- Errors that lowering a checked tree can give.  Locals can be used before
they are declared only in trees that are not in scope. -/
inductive LoweringError.Expected (table : SymbolTable) (unscoped : Prop) : LoweringError → Prop
  | memory : Expected table unscoped (.ir .outOfMemory)
  | missingResult (span : Span) : Expected table unscoped (.missingResult span)
  | swizzle (field : String) (span : Span) : Expected table unscoped (.unsupported (.swizzle field) span)
  | call (callee : SymbolId) (span : Span) (h : (table.get callee).isFunction = true ∨
      ∃ f, (table.get callee).kind = .intrinsic f ∧ f.isTranscendental = true) :
      Expected table unscoped (.unsupported (.call (table.get callee).name) span)
  | vectorComparison (span : Span) : Expected table unscoped (.unsupported .vectorComparison span)
  | vectorStep (op : UnaryOp) (type : ValueType) (span : Span) (h : type.isVector = true) :
      Expected table unscoped (.unsupported (.stepOfType op type) span)
  | operandEffect (op : BinaryOp) (span : Span) (h : op.operatorClass = .logical) :
      Expected table unscoped (.unsupported (.operandEffect op) span)
  | move (width : Nat) (h : width = 12 ∨ width = 24) :
      Expected table unscoped (.ir (.invalidState (.unmovable width width)))
  | fetch (width : Nat) (h : width = 12 ∨ width = 24) :
      Expected table unscoped (.ir (.invalidState (.unfetchable width)))
  | store (width : Nat) (h : width = 12 ∨ width = 24) :
      Expected table unscoped (.ir (.invalidState (.unstorable width)))
  | undeclared (name : String) (span : Span) (h : unscoped) :
      Expected table unscoped (.unsupported (.undeclaredUse name) span)

/-! ## Types -/

namespace ValueType

lemma registerWidth_eq (type : ValueType) : type.registerWidth = type.size := by
  unfold registerWidth RegisterClass.ofType
  split
  · rename_i h
    obtain rfl : type = scalar .int := of_decide_eq_true h
    rfl
  · rfl

/-- All values but those of three lanes fit a register. -/
lemma three_lanes_of_width (hv : type.Valid) (hvoid : type.isVoid = false)
    (h : AccessWidth.ofBytes? type.registerWidth = none) :
    type.registerWidth = 12 ∨ type.registerWidth = 24 := by
  rw [registerWidth_eq, size] at h ⊢
  obtain ⟨base, lanes⟩ := type
  obtain ⟨hlow, hhigh, -⟩ := hv
  have hlanes : lanes = 1 ∨ lanes = 2 ∨ lanes = 3 ∨ lanes = 4 := by
    change 1 ≤ lanes at hlow
    change lanes ≤ 4 at hhigh
    omega
  rcases hlanes with rfl | rfl | rfl | rfl <;> cases base <;> first | cases hvoid; done | cases h; done | decide

end ValueType

/-- Accesses to the layout that code may make: offsets and widths. -/
structure Accesses where
  reads : Int32 → AccessWidth → Prop
  writes : Int32 → AccessWidth → Prop

/-- Every access is allowed. -/
def Accesses.all : Accesses := ⟨fun _ _ => True, fun _ _ => True⟩

namespace Builder

variable {ir later : Builder} {base : ObjectId}

/-- A fetch or store goes to the layout and is allowed. -/
structure Admits (ir : Builder) (accesses : Accesses) (base : ObjectId) (instr : Instruction) : Prop where
  allowed : ∀ operand ∈ instr.operands, ∀ memory, ir.shape? operand = some (.memory memory) →
    match instr.opcode.code with
    | .fetch width => memory.base = base ∧ memory.index? = none ∧ accesses.reads memory.offset width
    | .store width => memory.base = base ∧ memory.index? = none ∧ accesses.writes memory.offset width
    | _ => True
  /-- A store has an address. -/
  stores : ∀ width, instr.opcode.code = .store width → ∃ operand ∈ instr.operands, ∃ memory,
    ir.shape? operand = some (.memory memory)

/-- Pure instructions without addresses. -/
lemma admits_of_registers (hpure : instr.opcode.code.isPure = true)
    (h : ∀ opd ∈ instr.operands, ∀ memory, ir.shape? opd ≠ some (.memory memory)) :
    ir.Admits acc base instr :=
  ⟨fun opd hm memory hk => absurd hk (h opd hm memory), fun _ hcode => by rw [hcode] at hpure; cases hpure⟩

lemma admits_of_isControl (h : instr.opcode.code.isControl = true) : ir.Admits acc base instr := by
  obtain ⟨⟨code, width⟩, opds⟩ := instr
  cases code with
  | jmp | jnz | ret => exact ⟨fun _ _ _ _ => trivial, nofun⟩
  | _ => cases h

/-- Operands of a fetch or store stay what they are. -/
lemma Admits.grows (h : ir.Admits acc base instr)
    (hdraws : ir.Draws g order base) (hg : ir.Grows later) (hm : instr ∈ g.instructions) :
    later.Admits acc base instr := by
  refine ⟨fun opd hopd memory hk => ?_, fun width hcode => ?_⟩
  case refine_2 =>
    obtain ⟨opd, hopd, memory, hk⟩ := h.stores width hcode
    exact ⟨opd, hopd, memory, hg opd _ hk rfl⟩
  obtain ⟨block, hblk, hi⟩ := mem_flatMap.mp hm
  obtain ⟨inst, hinst⟩ := instruction?_of_listing? (hdraws.blocks block hblk) hi
  obtain ⟨obj, ho⟩ := hdraws.sound.named hinst hopd
  have hshape := shape?_of_object? ho
  cases hb : obj.kind.unlinked.block? with
  | none =>
    have hsame : some obj.kind.unlinked = some (.memory memory) := (hg opd _ hshape hb).symm.trans hk
    exact h.allowed opd hopd memory (hshape.trans hsame)
  | some other =>
    -- Only jumps name blocks.
    have htgt : opd ∈ instr.targets := by
      cases hkind : obj.kind.unlinked with
      | block inner => exact hdraws.operands block hblk instr hi opd hopd inner (hkind ▸ hshape)
      | _ =>
        rw [hkind] at hb
        cases hb
    have hctl : instr.opcode.code.isControl = true := by
      by_contra hnot
      rw [Instruction.targets_of_not_control (Bool.eq_false_iff.mpr hnot)] at htgt
      cases htgt
    exact (admits_of_isControl hctl).allowed opd hopd memory hk

end Builder

/-! ## States -/

namespace LoweringState

open Builder

/-- The state holds a graph, locals are in registers and accesses are allowed. -/
structure Holds (table : SymbolTable) (accesses : Accesses) (graph : Graph) (order : List ObjectId)
    (state : LoweringState) : Prop where
  draws : state.builder.Draws graph order state.base
  current : state.current = graph.current
  locals : ∀ pair ∈ state.locals, state.builder.IsRegister pair.2 (table.get pair.1).type
  admits : ∀ instr ∈ graph.instructions, state.builder.Admits accesses state.base instr

/-- The graph is well-formed, and the state knows whether its last block is
open. -/
structure Ready (table : SymbolTable) (accesses : Accesses) (stopped : Bool) (graph : Graph)
    (state : LoweringState) : Prop where
  holds : ∃ order, state.Holds table accesses graph order
  terminated : state.terminated = stopped
  formed : graph.WellFormed stopped

/-- Operands, locals and loops stayed. -/
structure Keeps (state later : LoweringState) : Prop where
  base : later.base = state.base
  locals : later.locals = state.locals
  loops : later.loops = state.loops
  grows : state.builder.Grows later.builder

variable {mid later : LoweringState} {graph' : Graph} {order' : List ObjectId}

lemma Keeps.refl (st : LoweringState) : st.Keeps st := ⟨rfl, rfl, rfl, .refl _⟩

lemma Keeps.trans (h : st.Keeps mid) (h' : mid.Keeps later) : st.Keeps later :=
  ⟨h'.base.trans h.base, h'.locals.trans h.locals, h'.loops.trans h.loops, h.grows.trans h'.grows⟩

lemma Ready.nodup (h : st.Ready tbl acc stopped g) : g.ids.Nodup := by
  obtain ⟨order, hholds⟩ := h.holds
  exact hholds.draws.nodup

lemma Ready.locals (h : st.Ready tbl acc stopped g) :
    ∀ pair ∈ st.locals, st.builder.IsRegister pair.2 (tbl.get pair.1).type := by
  obtain ⟨order, hholds⟩ := h.holds
  exact hholds.locals

/-- The state with a builder that holds the same code and operands. -/
lemma Holds.build {ir : Builder} (h : st.Holds tbl acc g order)
    (hdraws : ir.Draws graph' order' st.base) (hgrows : st.builder.Grows ir)
    (hcur : graph'.current = g.current) (hinsts : graph'.instructions = g.instructions) :
    ({ st with builder := ir } : LoweringState).Holds tbl acc graph' order' ∧
    st.Keeps { st with builder := ir } := by
  refine ⟨⟨hdraws, h.current.trans hcur.symm, fun pair hm => (h.locals pair hm).grows hgrows, fun instr hm => ?_⟩,
    rfl, rfl, rfl, hgrows⟩
  rw [hinsts] at hm
  exact (h.admits instr hm).grows h.draws hgrows hm

/-- The later state has more straight code. -/
def Advances (table : SymbolTable) (acc : Accesses) (graph : Graph) (st later : LoweringState) : Prop :=
  ∃ code, Code.Straight code ∧ later.Ready table acc false (graph.emit code) ∧ st.Keeps later

end LoweringState

/-! ## Operations -/

namespace Lower

open Builder LoweringState
open LoweringError (Expected)

section

/-- An action that emits straight code into the open block and finds something. -/
def Emits {α : Type} (table : SymbolTable) (acc : Accesses) (unscoped : Prop) (action : Lower α) (graph : Graph)
    (st : LoweringState) (found : α → Builder → Prop) : Prop :=
  Ends action st (fun a later => st.Advances table acc graph later ∧ found a later.builder)
    (Expected table unscoped)

variable {α β : Type} {g : Graph} {st : LoweringState} {found : α → Builder → Prop}
  {found' : β → Builder → Prop}

namespace Emits

lemma pure {a : α} (h : st.Ready tbl acc false g) (hf : found a st.builder) :
    Emits tbl acc loose (Pure.pure a) g st found :=
  Ends.pure ⟨⟨[], Code.straight_nil, by rwa [Graph.emit_nil], .refl st⟩, hf⟩

lemma throw {err : LoweringError} (h : Expected tbl loose err) :
    Emits tbl acc loose (MonadExcept.throw err : Lower α) g st found := Ends.throw h

lemma bind {x : Lower α} {f : α → Lower β} (h : Emits tbl acc loose x g st found)
    (hf : ∀ a mid graph', mid.Ready tbl acc false graph' → st.Keeps mid → found a mid.builder →
      Emits tbl acc loose (f a) graph' mid found') :
    Emits tbl acc loose (x >>= f) g st found' := by
  refine Ends.bind h ?_
  rintro a mid ⟨⟨code, hcode, hready, hkeeps⟩, hfound⟩
  refine (hf a mid _ hready hkeeps hfound).imp ?_
  rintro b later ⟨⟨code', hcode', hready', hkeeps'⟩, hfound'⟩
  rw [Graph.emit_emit] at hready'
  exact ⟨⟨code ++ code', hcode.append hcode', hready', hkeeps.trans hkeeps'⟩, hfound'⟩

/-- The state is read. -/
lemma of_get {f : LoweringState → Lower α} (h : Emits tbl acc loose (f st) g st found) :
    Emits tbl acc loose (get >>= f) g st found := h

end Emits

end

/-- Operations that fail only for want of room. -/
lemma build_ready {α : Type} {act : Build α} {ok : α → Builder → Prop} {good : α → LoweringState → Prop}
    (h : Build.Ends act st.builder ok st.builder.OutOfRoom)
    (hgood : ∀ a ir, ok a ir → good a { st with builder := ir }) :
    Ends (build act) st good (Expected tbl loose) := by
  refine .build h hgood fun err ir hout => ?_
  obtain ⟨rfl, -⟩ := hout
  exact .memory

/-! ### Instructions -/

lemma append_holds (h : st.Holds tbl acc g order)
    (hopen : st.terminated = false) (hcount : opds.length ≤ maxOperands)
    (hopds : ∀ opd ∈ opds, st.builder.IsOperand opd ∨
      opd ∈ g.ids ∧ opd ∈ (⟨opcode, opds⟩ : Instruction).targets)
    (hadmits : st.builder.Admits acc st.base ⟨opcode, opds⟩) :
    Ends (emit opcode opds) st (fun _ later => later.Holds tbl acc (g.emit [⟨opcode, opds⟩]) order ∧
      st.Keeps later ∧ later.terminated = false) (Expected tbl loose) := by
  have hdraws := h.draws
  obtain ⟨block, hblk⟩ := hdraws.exists_block g.mem_ids_current
  have hlive : ∀ opd ∈ opds, ∃ kind, st.builder.shape? opd = some kind := by
    intro opd hm
    rcases hopds opd hm with ⟨kind, hk, -⟩ | ⟨hids, -⟩
    · exact ⟨kind, hk⟩
    · obtain ⟨inside, hin⟩ := hdraws.shape?_block hids
      exact ⟨_, hin⟩
  have htgts : ∀ opd ∈ opds, ∀ inside, st.builder.shape? opd = some (.block inside) →
      opd ∈ (⟨opcode, opds⟩ : Instruction).targets := by
    intro opd hm inside hin
    rcases hopds opd hm with ⟨kind, hk, hb⟩ | ⟨-, htgt⟩
    · rw [hk] at hin
      cases hin
      cases hb
    · exact htgt
  refine Ends.congr ?_ (emitBy_run (Build.emit · opcode opds) hopen)
  rw [h.current]
  refine .ignore (build_ready ((Build.emit_ends hdraws.sound hdraws.ordered).mono (fun _ _ hgood => hgood)
    fun _ _ hbad => hbad.outOfRoom ⟨⟨block, hblk⟩, hcount, hlive⟩) ?_)
  rintro inst ir ⟨hs, ho, happ⟩
  have hlater := hdraws.emit hs happ ho htgts
  refine ⟨⟨hlater, h.current, fun pair hm => (h.locals pair hm).grows happ.grows, fun instr hm => ?_⟩,
    ⟨rfl, rfl, rfl, happ.grows⟩, hopen⟩
  rw [Graph.instructions_emit] at hm
  rcases mem_append.mp hm with hm | hm
  · exact (h.admits instr hm).grows hdraws happ.grows hm
  · obtain rfl := mem_singleton.mp hm
    refine ⟨fun opd hopd memory hk => ?_, fun width hcode => ?_⟩
    case refine_2 =>
      obtain ⟨opd, hopd, memory, hk⟩ := hadmits.stores width hcode
      exact ⟨opd, hopd, memory, happ.grows opd _ hk rfl⟩
    -- The operands are what they were before the instruction was there.
    refine hadmits.allowed opd hopd memory ?_
    obtain ⟨kind, hkind⟩ := hlive opd hopd
    cases hb : kind.block? with
    | none => exact hkind.trans ((happ.grows opd kind hkind hb).symm.trans hk)
    | some inside =>
      cases kind with
      | block inner =>
        obtain ⟨tgt, htgt, hshape⟩ := happ.shape
        change ir.shape? opd = _ at hk
        rw [hshape] at hk
        split at hk
        · cases hk
        · exact hk
      | _ => cases hb

section

variable (h : st.Ready tbl acc false g)
include h

lemma build_emits {α : Type} {act : Build α} {found : α → Builder → Prop}
    (hact : ∀ order, st.builder.Draws g order st.base → Build.Ends act st.builder (fun a ir =>
      ir.Draws g order st.base ∧ st.builder.Grows ir ∧ found a ir) st.builder.OutOfRoom) :
    Emits tbl acc loose (build act) g st found := by
  obtain ⟨order, hholds⟩ := h.holds
  refine build_ready (hact order hholds.draws) fun a ir hpost => ?_
  obtain ⟨hlater, hkeeps⟩ := hholds.build hpost.1 hpost.2.1 rfl rfl
  exact ⟨⟨[], Code.straight_nil,
    by rw [Graph.emit_nil]; exact ⟨⟨order, hlater⟩, h.terminated, h.formed⟩, hkeeps⟩, hpost.2.2⟩

lemma newRegister_emits (type : ValueType) :
    Emits tbl acc loose (build (newRegisterFor type)) g st fun id ir => ir.IsRegister id type :=
  build_emits h fun _ hdraws => (hdraws.newRegister type).mono
    (fun _ _ hpost => ⟨hpost.1, hpost.2.grows, hpost.2.register⟩) fun _ _ hbad => hbad

lemma memberOperand_emits (off : Int32) : Emits tbl acc loose (memberOperand off) g st fun id ir =>
      ir.shape? id = some (.memory ⟨st.base, none, off⟩) := by
  unfold memberOperand
  exact .of_get (build_emits h fun _ hdraws => hdraws.newMemory off)

lemma newImmediate_emits (val : Value) (type : ValueType) :
    Emits tbl acc loose (build (newImmediateFor val type)) g st fun id ir => ir.IsLiteral id val type :=
  build_emits h fun _ hdraws => hdraws.newImmediate val type

lemma emit_emits (hctl : opcode.code.isControl = false) (hcount : opds.length ≤ maxOperands)
    (hopds : ∀ opd ∈ opds, st.builder.IsOperand opd)
    (hadmits : st.builder.Admits acc st.base ⟨opcode, opds⟩) :
    Emits tbl acc loose (emit opcode opds) g st fun _ _ => True := by
  have hcode : Code.Straight [⟨opcode, opds⟩] := by
    intro instr hm
    rw [mem_singleton.mp hm]
    exact hctl
  obtain ⟨order, hholds⟩ := h.holds
  refine (append_holds hholds h.terminated hcount (fun opd hm => .inl (hopds opd hm)) hadmits).imp ?_
  rintro - later ⟨hlater, hkeeps, hopen⟩
  exact ⟨⟨_, hcode, ⟨⟨order, hlater⟩, hopen, h.formed.emit hcode⟩, hkeeps⟩, trivial⟩

lemma emitWide_emits (code : AccessWidth → InstCode) {act : ObjectId → Build InstId} {bytes : Nat}
    {fault : BuilderFault}
    (hrun : (act st.current).run.run st.builder = (match ofBytes? bytes with
      | some width => Build.emit st.current (.scalar (code width)) opds
      | none => Build.fail fault).run.run st.builder)
    (hctl : ∀ width, (code width).isControl = false) (hcount : opds.length ≤ maxOperands)
    (hopds : ∀ opd ∈ opds, st.builder.IsOperand opd)
    (hadmits : ∀ width, ofBytes? bytes = some width →
      st.builder.Admits acc st.base ⟨.scalar (code width), opds⟩)
    (hwidth : ofBytes? bytes = none → Expected tbl loose (.ir (.invalidState fault))) :
    Emits tbl acc loose (do let block ← openBlock; let _ ← build (act block)) g st fun _ _ => True := by
  refine Ends.congr ?_ (emitBy_run act h.terminated)
  cases hbytes : ofBytes? bytes with
  | none =>
    rw [hbytes] at hrun
    exact .ignore (.of_error (build_run_error hrun) (hwidth hbytes))
  | some width =>
    rw [hbytes] at hrun
    refine Ends.congr (emit_emits h (hctl width) hcount hopds (hadmits width hbytes)) ?_
    rw [emit, emitBy_run _ h.terminated, StateT.run_bind, StateT.run_bind, build_run, build_run, hrun]

section

variable (hv : type.Valid) (hvoid : type.isVoid = false)
include hv hvoid

section

variable (hdst : st.builder.IsRegister dst type)

include hdst

lemma emitMove_emits {source : ValueType} (hsrc : st.builder.IsRegister src source) (hwidth :
    source.registerWidth = type.registerWidth) : Emits tbl acc loose (emitMove dst src) g st fun _ _ => True := by
  have hopds : ∀ opd ∈ [dst, src], st.builder.IsOperand opd := by
    simp [hdst.isOperand, hsrc.isOperand]
  obtain ⟨num, hd⟩ := hdst
  obtain ⟨number', hs⟩ := hsrc
  have hfails : ofBytes? (min type.registerWidth source.registerWidth) = none → Expected tbl loose
      (.ir (.invalidState (.unmovable source.registerWidth type.registerWidth))) := by
    rw [hwidth, Nat.min_self]
    exact fun hnone => .move _ (type.three_lanes_of_width hv hvoid hnone)
  refine emitWide_emits h .move ?_ (fun _ => rfl) (by simp [maxOperands]) hopds
    (fun _ _ => ⟨fun _ _ _ _ => trivial, nofun⟩) hfails
  exact (ExceptT.run_bind_of_ok (register_run (kind?_of_shape? hd rfl))).trans
    (ExceptT.run_bind_of_ok (register_run (kind?_of_shape? hs rfl)))

lemma emitFetchLiteral_emits {val : Value} (hsrc : st.builder.IsLiteral src val type) :
    Emits tbl acc loose (emitFetch dst src) g st fun _ _ => True := by
  have hvals : ∀ opd ∈ [dst, src], st.builder.IsValue opd := by
    simp [hdst.isValue, hsrc.isValue]
  obtain ⟨num, hd⟩ := hdst
  obtain ⟨opd, hs, -⟩ := hsrc
  obtain ⟨refs, ho⟩ := object?_eq_of_kind? (kind?_of_shape? hs rfl)
  refine emitWide_emits h .fetch ?_ (fun _ => rfl) (by simp [maxOperands]) (fun opd hm => (hvals opd hm).isOperand)
    (fun _ _ => admits_of_registers rfl fun opd hm => (hvals opd hm).not_memory)
    fun hnone => .fetch _ (type.three_lanes_of_width hv hvoid hnone)
  exact (ExceptT.run_bind_of_ok (register_run (kind?_of_shape? hd rfl))).trans
    (ExceptT.run_bind_of_ok (object_run ho))

lemma emitFetchMember_emits {off : Int32} (hsrc : st.builder.shape? src = some (.memory ⟨st.base, none, off⟩))
    (hreads : ∀ width, ofBytes? type.registerWidth = some width → acc.reads off width) :
    Emits tbl acc loose (emitFetch dst src) g st fun _ _ => True := by
  have hsource : st.builder.IsOperand src := ⟨_, hsrc, rfl⟩
  have hopds : ∀ opd ∈ [dst, src], st.builder.IsOperand opd := by
    simp [hdst.isOperand, hsource]
  have hadmits (width : AccessWidth) (hbytes : ofBytes? type.registerWidth = some width) :
      st.builder.Admits acc st.base ⟨.scalar (.fetch width), [dst, src]⟩ := by
    refine ⟨fun opd hm memory hk => ?_, nofun⟩
    rcases mem_pair.mp hm with rfl | rfl
    · exact absurd hk (hdst.isValue.not_memory memory)
    · rw [hsrc] at hk
      cases hk
      exact ⟨rfl, rfl, hreads width hbytes⟩
  obtain ⟨num, hd⟩ := hdst
  obtain ⟨refs, ho⟩ := object?_eq_of_kind? (kind?_of_shape? hsrc rfl)
  refine emitWide_emits h .fetch ?_ (fun _ => rfl) (by simp [maxOperands]) hopds hadmits
    fun hnone => .fetch _ (type.three_lanes_of_width hv hvoid hnone)
  exact (ExceptT.run_bind_of_ok (register_run (kind?_of_shape? hd rfl))).trans
    (ExceptT.run_bind_of_ok (object_run ho))

end

lemma emitStore_emits {off : Int32}
    (hdst : st.builder.shape? dst = some (.memory ⟨st.base, none, off⟩)) (hsrc : st.builder.IsRegister src type)
    (hwrites : ∀ width, ofBytes? type.registerWidth = some width → acc.writes off width) :
    Emits tbl acc loose (emitStore dst src) g st fun _ _ => True := by
  have htgt : st.builder.IsOperand dst := ⟨_, hdst, rfl⟩
  have hopds : ∀ opd ∈ [dst, src], st.builder.IsOperand opd := by
    simp [htgt, hsrc.isOperand]
  have hadmits (width : AccessWidth) (hbytes : ofBytes? type.registerWidth = some width) :
      st.builder.Admits acc st.base ⟨.scalar (.store width), [dst, src]⟩ := by
    refine ⟨fun opd hm memory hk => ?_, fun _ _ => ⟨dst, mem_cons_self .., _, hdst⟩⟩
    rcases mem_pair.mp hm with rfl | rfl
    · rw [hdst] at hk
      cases hk
      exact ⟨rfl, rfl, hwrites width hbytes⟩
    · exact absurd hk (hsrc.isValue.not_memory memory)
  obtain ⟨num, hs⟩ := hsrc
  obtain ⟨refs, ho⟩ := object?_eq_of_kind? (kind?_of_shape? hdst rfl)
  refine emitWide_emits h .store ?_ (fun _ => rfl) (by simp [maxOperands]) hopds hadmits
    fun hnone => .store _ (type.three_lanes_of_width hv hvoid hnone)
  exact (ExceptT.run_bind_of_ok (register_run (kind?_of_shape? hs rfl))).trans
    (ExceptT.run_bind_of_ok (object_run ho))

end

/-- A register that receives the result of a pure instruction on values. -/
lemma emitTo_emits {sources : List ObjectId} (hpure : opcode.code.isPure = true) (hcount : sources.length ≤ 2)
    (hsrcs : ∀ source ∈ sources, st.builder.IsValue source) : Emits tbl acc loose (do
      let dst ← build (newRegisterFor type)
      emit opcode (dst :: sources)
      return dst) g st fun id ir => ir.IsRegister id type := by
  refine (newRegister_emits h type).bind fun dst mid _ h₁ hk₁ hdst => ?_
  have hvals : ∀ opd ∈ dst :: sources, mid.builder.IsValue opd :=
    forall_mem_cons.mpr ⟨hdst.isValue, fun opd hm => (hsrcs opd hm).grows hk₁.grows⟩
  have hlength : (dst :: sources).length ≤ maxOperands := Nat.succ_le_succ hcount
  exact (emit_emits h₁ (InstCode.isControl_of_isPure hpure) hlength
    (fun opd hm => (hvals opd hm).isOperand) (admits_of_registers hpure fun opd hm =>
      (hvals opd hm).not_memory)).bind
    fun _ _ _ h₂ hk₂ _ => .pure h₂ (hdst.grows hk₂.grows)

end

/-! ### Blocks -/

/-- A jump or return goes to the end of the open block, which closes it. -/
lemma close_holds (h : st.Holds tbl acc g order)
    (hopen : st.terminated = false) (hctl : opcode.code.isControl = true) (hcount : opds.length ≤ maxOperands)
    (hopds : ∀ opd ∈ opds, opd ∈ g.ids ∧ opd ∈ (⟨opcode, opds⟩ : Instruction).targets) :
    Ends (do emit opcode opds; terminate) st (fun _ later =>
      later.Holds tbl acc (g.emit [⟨opcode, opds⟩]) order ∧ st.Keeps later ∧ later.terminated = true)
        (Expected tbl loose) := by
  refine (append_holds h hopen hcount (fun opd hm => .inr (hopds opd hm)) (admits_of_isControl hctl)).bind ?_
  rintro - later ⟨hholds, hkeeps, -⟩
  exact ⟨⟨hholds.draws, hholds.current, hholds.locals, hholds.admits⟩,
    ⟨hkeeps.base, hkeeps.locals, hkeeps.loops, hkeeps.grows⟩, rfl⟩

lemma jump_holds (h : st.Holds tbl acc g order) (hopen : st.terminated = false)
    (htgt : tgt ∈ g.ids) : Ends (jump tgt) st (fun _ later =>
      later.Holds tbl acc (g.emit [.jump tgt]) order ∧ st.Keeps later ∧ later.terminated = true)
        (Expected tbl loose) := by
  refine close_holds h hopen rfl (by simp [maxOperands]) fun opd hm => ?_
  obtain rfl := mem_singleton.mp hm
  exact ⟨htgt, hm⟩

end Lower

/-- The graph after a jump from the current block, if that is open. -/
def Graph.leave (graph : Graph) (stopped : Bool) (id : ObjectId) : Graph :=
  if stopped then graph else graph.emit [.jump id]

namespace Graph

variable {id : ObjectId}

@[simp] lemma leave_false : g.leave false id = g.emit [.jump id] := rfl

@[simp] lemma pending_leave : (g.leave stopped id).pending = g.pending := by
  cases stopped <;> rfl

lemma WellFormed.leave (h : g.WellFormed stopped) (hid : id ∈ g.ids) : (g.leave stopped id).WellFormed true := by
  cases stopped with
  | true => exact h
  | false =>
    refine h.close (.jump id) fun other hm => ?_
    rwa [mem_singleton.mp (show other ∈ [id] from hm)]

end Graph

namespace Lower

open Builder LoweringState
open LoweringError (Expected)

lemma jumpIfOpen_holds (h : st.Holds tbl acc g order) (hstop : st.terminated = stopped)
    (htgt : tgt ∈ g.ids) : Ends (jumpIfOpen tgt) st (fun _ later =>
      later.Holds tbl acc (g.leave stopped tgt) order ∧ st.Keeps later ∧ later.terminated = true)
        (Expected tbl loose) := by
  change Ends (if !st.terminated then jump tgt else pure ()) st _ _
  rw [hstop]
  cases stopped with
  | true => exact .pure ⟨h, .refl st, hstop⟩
  | false => exact jump_holds h hstop htgt

/-- A pending block becomes the current one, or goes if nothing jumps to it. -/
lemma enter_ready {id : ObjectId} (h : st.Ready tbl acc stopped g) (hp : id ∈ g.pending) :
    Ends (enter id) st (fun stays later => st.Keeps later ∧
      if stays then later.Ready tbl acc false ((g.leave stopped id).enter id) ∧ id ∈ (g.leave stopped id).targets
      else stopped = true ∧ id ∉ g.targets ∧ later.Ready tbl acc true (g.drop id)) (Expected tbl loose) := by
  have hid := Graph.mem_ids_of_pending hp
  have hformed := h.formed.leave hid
  obtain ⟨order, hholds⟩ := h.holds
  have hmove : Ends (build (moveToEnd id)) st (fun _ later => later.Holds tbl acc g (order.erase id ++ [id]) ∧
      st.Keeps later ∧ later.terminated = stopped) (Expected tbl loose) := by
    refine .gives (hholds.draws.moveToEnd hp) fun _ ir hpost => ?_
    obtain ⟨hlater, hkeeps⟩ := hholds.build hpost.1 hpost.2 rfl rfl
    exact ⟨hlater, hkeeps, h.terminated⟩
  unfold enter
  refine hmove.bind ?_
  rintro - moved ⟨hmoved, hkeeps, hstop⟩
  refine (jumpIfOpen_holds hmoved hstop hid).bind ?_
  rintro - left ⟨hleft, hkeeps', hclosed⟩
  have hp' : id ∈ (g.leave stopped id).pending := by rwa [Graph.pending_leave]
  have hrefs := hleft.draws.refs?_pending hp'
  change Ends (if left.builder.refs? id = some 0 then _ else _) left _ _
  split
  · rename_i hzero
    have hnot := hrefs.mp hzero
    obtain rfl : stopped = true := by
      by_contra hopen
      rw [Bool.not_eq_true] at hopen
      subst hopen
      simp [Code.targets] at hnot
    have hdelete : Ends (build (deleteObject id)) left (fun _ later => later.Ready tbl acc true (g.drop id) ∧
        left.Keeps later) (Expected tbl loose) := by
      refine .gives (hleft.draws.deleteBlock hp' hzero) fun _ ir hpost => ?_
      obtain ⟨hlater, hkeeps⟩ := hleft.build hpost.1 hpost.2 rfl rfl
      exact ⟨⟨⟨_, hlater⟩, hclosed, h.formed.drop h.nodup hp hnot⟩, hkeeps⟩
    refine hdelete.bind ?_
    rintro - later ⟨hready, hkeeps''⟩
    exact .pure ⟨hkeeps.trans (hkeeps'.trans hkeeps''), rfl, hnot, hready⟩
  · rename_i hsome
    have htgt : id ∈ (g.leave stopped id).targets := by
      by_contra hnot
      exact hsome (hrefs.mpr hnot)
    have hentered := hleft.draws.enter hp' ⟨_, rfl⟩
    have hready : ({ left with current := id, terminated := false } : LoweringState).Ready tbl acc false
        ((g.leave stopped id).enter id) := by
      refine ⟨⟨_, hentered, rfl, hleft.locals, fun instr hm => ?_⟩, rfl, hformed.enter hp' htgt⟩
      rw [Graph.instructions_enter] at hm
      exact hleft.admits instr hm
    exact ⟨hkeeps.trans ⟨hkeeps'.base, hkeeps'.locals, hkeeps'.loops, hkeeps'.grows⟩, hready, htgt⟩

end Lower

end Shading
